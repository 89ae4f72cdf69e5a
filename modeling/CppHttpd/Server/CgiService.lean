import CppHttpd.Http.Handlers.CgiEndings
import CppHttpd.Http.Handlers.CgiEnvironment
import CppHttpd.Http.Handlers.CgiFraming
import CppHttpd.Http.Handlers.HeadResponses
import CppHttpd.Server.FileService

/-!
# Programs over a connection

Requests are written by a client and routed to programs.  The server starts each of
them, writes the body of the request to it and reads what it writes.  What the
client reads in the end are the pages that the programs have written.
-/

namespace CppHttpd

open CppHttpd.Foundation

/-! ## Fields that can be read -/

theorem trim_clean {s : Bytes} (hline : CR ∉ s ∧ LF ∉ s) : CleanValue (trim s) := by
  have hblank : ∀ c, (ascii " \t\r\n").contains c = false → c ≠ SP ∧ c ≠ TAB := by
    rintro c hc
    constructor
    · rintro rfl
      revert hc
      decide
    · rintro rfl
      revert hc
      decide
  exact
    { oneLine := ⟨fun hmem => hline.1 (trim_subset _ _ hmem), fun hmem =>
        hline.2 (trim_subset _ _ hmem)⟩
      first := fun c hc => hblank c (trim_first hc)
      last := fun c hc => hblank c (trim_last hc) }

/-- A field that is taken from a line can be read back from one. -/
theorem headerField_clean {line : Bytes} (hline : CR ∉ line ∧ LF ∉ line) {field : Bytes × Bytes}
    (h : headerField line = some field) : CleanName field.1 ∧ CleanValue field.2 := by
  unfold headerField at h
  dsimp only at h
  split_ifs at h with hskip
  cases h
  simp only [not_or] at hskip
  obtain ⟨-, -, hname, -⟩ := hskip
  unfold parseHeaderLine at hname ⊢
  split at hname
  · exact absurd rfl hname
  · rename_i colon hcolon
    simp only [substr_eq, substrFrom_eq, List.drop_zero, Bool.false_eq_true, if_false] at hname ⊢
    split_ifs at hname ⊢ with hzero hempty
    · exact absurd rfl hname
    · exact absurd rfl hname
    · have hfront : trim (line.take colon) ⊆ line.take colon := trim_subset _ _
      refine ⟨⟨hname, fun hmem => (find_split hcolon).2 (hfront hmem), ?_, ?_⟩, trim_clean ⟨?_, ?_⟩⟩
      · exact fun hmem => hline.1 (List.mem_of_mem_take (hfront hmem))
      · exact fun hmem => hline.2 (List.mem_of_mem_take (hfront hmem))
      · exact fun hmem => hline.1 (List.mem_of_mem_drop hmem)
      · exact fun hmem => hline.2 (List.mem_of_mem_drop hmem)

theorem mem_of_lastField {fields : List (Bytes × Bytes)} {name value : Bytes}
    (h : lastField fields name = some value) : (name, value) ∈ fields := by
  obtain ⟨⟨name', value'⟩, hlast, rfl⟩ := Option.map_eq_some_iff.1 h
  obtain ⟨hmem, hname⟩ := List.mem_filter.1 (List.mem_of_getLast? hlast)
  obtain rfl : name' = name := of_decide_eq_true hname
  exact hmem

section

variable {uninitialised : Int} {lines : List Bytes} {body : Bytes} {r : HttpResponse}

theorem TakenFrom.clean (h : TakenFrom uninitialised lines body r)
    (hlines : ∀ line ∈ lines, TextLine line) {header : Sigma fun _ : Bytes => Bytes}
    (hheader : header ∈ r.headers.entries) : CleanName header.1 ∧ CleanValue header.2 := by
  have hlookup : r.headers.lookup header.1 = some header.2 := AList.mem_lookup_iff.2 hheader
  rw [h.headers_eq] at hlookup
  split_ifs at hlookup with hname
  · rw [hname, ← Option.some.inj hlookup]
    exact ⟨by decide, cleanValue_of_forall (forall_mem_of_all (by decide))⟩
  · obtain ⟨line, hline, hfield⟩ := List.mem_filterMap.1 (mem_of_lastField hlookup)
    exact headerField_clean ⟨(hlines line hline).noCR, (hlines line hline).noLF⟩ hfield

theorem TakenFrom.message (h : TakenFrom uninitialised lines body r)
    (hlines : ∀ line ∈ lines, TextLine line) : CR ∉ r.statusMessage ∧ LF ∉ r.statusMessage := by
  have hmessage : r.statusMessage =
      (statusOf uninitialised (lines.filterMap statusText).getLast?).2 :=
    congrArg Prod.snd h.status_eq
  rw [hmessage]
  cases hlast : (lines.filterMap statusText).getLast? with
  | none => exact (by decide : CR ∉ ascii "OK" ∧ LF ∉ ascii "OK")
  | some text =>
      obtain ⟨line, hline, htext⟩ := List.mem_filterMap.1 (List.mem_of_getLast? hlast)
      unfold statusText at htext
      split_ifs at htext
      cases htext
      have hsubset : (statusOf uninitialised (some (line.drop 8))).2 ⊆ line :=
        List.Subset.trans (trim_subset _ _)
          (List.Subset.trans (readStatus_subset _ _) (List.drop_subset _ _))
      exact ⟨fun hmem => (hlines line hline).noCR (hsubset hmem), fun hmem =>
        (hlines line hline).noLF (hsubset hmem)⟩

theorem TakenFrom.serialisable (h : TakenFrom uninitialised lines body r)
    (hlines : ∀ line ∈ lines, TextLine line)
    (hcode : 100 ≤ r.statusCode.value ∧ r.statusCode.value ≤ 999) : Serialisable r where
  status := hcode
  message := h.message hlines
  name _ hheader :=
    let hname := (h.clean hlines hheader).1
    ⟨hname.ne_nil, hname.noColon, hname.oneLine⟩
  value _ hheader := (h.clean hlines hheader).2.oneLine
  value_head _ hheader := (h.clean hlines hheader).2.first
  value_last _ hheader := (h.clean hlines hheader).2.last

end

/-! ## Pages -/

/-- What a program writes if it leaves the headers of the server alone. -/
structure CgiPage extends CgiHead where
  lineEnd : LineTerminator
  body : Bytes
  /-- Nothing in the body is taken for the end of the headers. -/
  noBlank : lineEnd = .lf → ¬ ascii "\r\n\r\n" <:+: body
  code : ∀ text, (lines.filterMap statusText).getLast? = some text → GivesCode text
  fields : ∀ field ∈ lines.filterMap headerField, isServerField field.1 = false

namespace CgiPage

variable (page : CgiPage)

def output : Bytes := page.toCgiHead.output page.lineEnd page.body

def headerBlock : Bytes := joinLines page.lineEnd page.lines

/-- The code and the reason phrase, which nothing but the page decides. -/
def status : StatusCode × Bytes := statusOf 0 (page.lines.filterMap statusText).getLast?

def header (name : Bytes) : Option Bytes := lastField (page.lines.filterMap headerField) name

theorem parseCgiOutput_output (uninitialised : Int) :
    parseCgiOutput uninitialised page.output =
      cgiResponse uninitialised page.headerBlock page.body := by
  apply parseCgiOutput_of_split
  unfold output headerBlock
  cases hend : page.lineEnd with
  | crlf => exact splitCgiOutput_output_crlf page.toCgiHead page.body
  | lf => exact splitCgiOutput_output_lf page.toCgiHead (page.noBlank hend)

theorem takenFrom (uninitialised : Int) :
    TakenFrom uninitialised page.lines page.body
      (cgiResponse uninitialised page.headerBlock page.body) :=
  takenFrom_joinLines uninitialised page.toCgiHead page.lineEnd page.body

theorem cgiFields_headerBlock : cgiFields page.headerBlock = page.lines.filterMap headerField := by
  have hlines : (getLines LF page.headerBlock).map stripCR = page.lines := by
    rw [headerBlock, getLines_joinLines page.lineEnd page.lines_ne page.text,
      map_stripCR_openLines page.text]
  calc cgiFields page.headerBlock
      = ((getLines LF page.headerBlock).map stripCR).filterMap headerField := by
        rw [List.filterMap_map]
        rfl
    _ = page.lines.filterMap headerField := by rw [hlines]

theorem statusOf_eq (uninitialised : Int) :
    statusOf uninitialised (page.lines.filterMap statusText).getLast? = page.status := by
  unfold status
  cases hlast : (page.lines.filterMap statusText).getLast? with
  | none => rfl
  | some text =>
      obtain ⟨m, rfl, -⟩ := page.code text hlast
      rw [statusOf, statusOf, readStatus_of_nonblank m.dropWhile_ne_nil uninitialised 0]

theorem status_code : 100 ≤ page.status.1.value ∧ page.status.1.value ≤ 599 := by
  unfold status
  cases hlast : (page.lines.filterMap statusText).getLast? with
  | none => decide
  | some text =>
      obtain ⟨m, rfl, hlo, hhi⟩ := page.code text hlast
      rw [statusOf]
      dsimp only
      rw [readStatus_of_numeral 0 m hlo hhi]
      exact ⟨hlo, hhi⟩

theorem status_eq (uninitialised : Int) :
    ((cgiResponse uninitialised page.headerBlock page.body).statusCode,
        (cgiResponse uninitialised page.headerBlock page.body).statusMessage) = page.status :=
  (page.takenFrom uninitialised).status_eq.trans (page.statusOf_eq uninitialised)

theorem serialisable (uninitialised : Int) :
    Serialisable (cgiResponse uninitialised page.headerBlock page.body) := by
  have hcode : (cgiResponse uninitialised page.headerBlock page.body).statusCode = page.status.1 :=
    congrArg Prod.fst (page.status_eq uninitialised)
  refine (page.takenFrom uninitialised).serialisable page.text ?_
  rw [hcode]
  have hrange := page.status_code
  omega

/-- Sent in one chunk, which nothing else in the headers speaks against. -/
theorem understood (uninitialised : Int) {request : HttpRequest} (content : Bytes)
    (hbodied : hasNoBody request.method page.status.1.value.toNat = false) :
    let reply : Reply :=
      ⟨request, cgiResponse uninitialised page.headerBlock page.body, content⟩
    reply.transmission.body = page.body ∧ reply.Understood := by
  intro reply
  have hfile : reply.response.bodyFd.isSome = false := by
    rw [show reply.response.bodyFd = none from cgiResponse_bodyFd _ _ _]
    rfl
  have hbody : reply.transmission.body = page.body := by
    simp only [Reply.transmission, hfile, Bool.false_eq_true, if_false]
    rfl
  have hpayload : reply.transmission.payload = reply.sent.bodyToBytes := by
    simp only [Reply.transmission, hfile, Bool.false_eq_true, if_false]
  have hstatus : reply.transmission.status = page.status.1.value.toNat :=
    congrArg (fun status => status.1.value.toNat) (page.status_eq uninitialised)
  have hplain : ∀ field ∈ cgiFields page.headerBlock, isFraming field.1 = false := by
    rw [page.cgiFields_headerBlock]
    exact fun field hfield => (Bool.or_eq_false_iff.1 (page.fields field hfield)).1
  have hsent : (sentMessage .inOrder request
      (cgiResponse uninitialised page.headerBlock page.body)).fields isFraming =
        [⟨ascii "Transfer-Encoding", ascii "chunked"⟩] :=
    sent_framing_iff.2 hplain
  have hframing : reply.transmission.framing =
      [⟨ascii "Transfer-Encoding", ascii "chunked"⟩] := hsent
  refine ⟨hbody, ?_, .inl (.chunked ?_ hframing ?_)⟩
  · exact (page.serialisable uninitialised).setHeader (by decide) (connectionValue_clean request)
  · rw [hstatus]
    exact hbodied
  · rw [hbody, hpayload]
    rfl

end CgiPage

/-! ## Programs -/

/-- A run of server and program that ends with an output of the program. -/
structure CgiService where
  cgi : CgiSetting
  trace : List (CgiRun × CgiLabel)
  last : CgiRun
  output : Bytes
  run : (cgiProcesses cgi).Run trace last
  returned : last.stage = .returned (.exited output)

namespace CgiService

variable (service : CgiService)

def dialogue : CgiDialogue := .ofTrace service.trace

theorem output_eq : service.output = service.dialogue.produced := by
  have hexplains := (CgiDialogue.follows_of_run service.run).explains
  simp only [CgiDialogue.Explains, service.returned] at hexplains
  exact hexplains.1

/-- What the program has left in its pipe is the end of its input. -/
theorem consumed_append :
    service.dialogue.consumed ++ service.last.stdinPipe.bytes = service.cgi.input := by
  have hsends := (CgiDialogue.follows_of_run service.run).sends
  simp only [CgiDialogue.Sends, service.returned] at hsends
  exact hsends

end CgiService

/-- The request is answered by a program, which runs as the service says and writes the page. -/
structure RunsProgram (env : Environment) (config : Config) (clientRemoteAddr : Option Bytes)
    (request : HttpRequest) (service : CgiService) (page : CgiPage) : Prop where
  started : service.cgi.request = request ∧ service.cgi.timeoutSeconds = config.timeoutSeconds
  called : ∃ vhost path, route env config request = .cgi vhost path ∧
    env.cgi (cgiCall config path request (some vhost) clientRemoteAddr) =
      .returned (.exited service.output)
  writes : service.dialogue.produced = page.output
  bodied : hasNoBody request.method page.status.1.value.toNat = false

/-- What the client is to read for a page. -/
structure HoldsPage (page : CgiPage) (response : DecodedResponse) : Prop where
  status : (⟨response.status⟩, response.message) = page.status
  headers : ∀ name, isServerField name = false →
    response.headers.lookup name = page.header name
  body : response.body = page.body

/-- The reply to a request for a program. -/
def IsPageReply (page : CgiPage) (reply : Reply) : Prop :=
  ∃ uninitialised,
    reply.response = cgiResponse uninitialised page.headerBlock page.body

section

variable {setting : ThreadSetting} {k : Nat} {request : HttpRequest} {service : CgiService}
  {page : CgiPage}

/-- Where a program writes the page and exits, it can have run so. -/
theorem RunsProgram.of_exited {env : Environment} {config : Config}
    {clientRemoteAddr : Option Bytes} {vhost : VirtualHost} {path : Bytes}
    (hroute : route env config request = .cgi vhost path)
    (hexited : env.cgi (cgiCall config path request (some vhost) clientRemoteAddr) =
      .returned (.exited page.output))
    (hbodied : hasNoBody request.method page.status.1.value.toNat = false) :
    ∃ service, RunsProgram env config clientRemoteAddr request service page := by
  let cgi : CgiSetting := { request := request, timeoutSeconds := config.timeoutSeconds }
  have hends : cgi.EndsIn (.returned (.exited page.output)) :=
    (cgi.endsIn_iff _).2 ⟨nofun, nofun⟩
  cases hends with
  | returned hreached hstage =>
      obtain ⟨trace, hrun⟩ := hreached.exists_run
      let service : CgiService := ⟨cgi, trace, _, page.output, hrun, hstage⟩
      exact ⟨service,
        { started := ⟨rfl, rfl⟩
          called := ⟨vhost, path, hroute, hexited⟩
          writes := service.output_eq.symm
          bodied := hbodied }⟩

theorem RunsProgram.expects (h : RunsProgram (setting.env k) setting.config
    setting.clientRemoteAddr request service page) :
    Expects setting k request (IsPageReply page) := by
  intro s
  obtain ⟨vhost, path, hroute, hcall⟩ := h.called
  rw [handle_eq, hroute, answer, runCgi, hcall]
  refine ⟨_, _, rfl, (setting.env k).uninitialised, ?_⟩
  rw [cgiOutcomeResponse, service.output_eq, h.writes, page.parseCgiOutput_output]

theorem IsPageReply.understood {reply : Reply} (h : IsPageReply page reply)
    (hbodied : hasNoBody reply.request.method page.status.1.value.toNat = false) :
    reply.transmission.body = page.body ∧ reply.Understood := by
  obtain ⟨request, response, content⟩ := reply
  obtain ⟨uninitialised, rfl⟩ := h
  exact page.understood uninitialised content hbodied

theorem IsPageReply.holdsPage {reply : Reply} (h : IsPageReply page reply)
    (hbodied : hasNoBody reply.request.method page.status.1.value.toNat = false)
    {response : DecodedResponse} (hread : reply.transmission.ReadAs response) :
    HoldsPage page response := by
  have hbody := (h.understood hbodied).1
  obtain ⟨uninitialised, hresponse⟩ := h
  have htaken := page.takenFrom uninitialised
  have hstatus := page.status_eq uninitialised
  rw [← hresponse] at htaken hstatus
  constructor
  · rw [← hstatus, hread.message]
    exact congrArg (fun code => (StatusCode.mk code, _)) hread.status
  · intro name hname
    have hconnection : name ≠ ascii "Connection" := by
      rintro rfl
      revert hname
      decide
    have hencoding : name ≠ ascii "Transfer-Encoding" := by
      rintro rfl
      revert hname
      decide
    rw [AList.perm_lookup hread.headers]
    change (AList.insert _ _ reply.response.headers).lookup name = _
    rw [AList.lookup_insert_ne hconnection, htaken.headers_eq, if_neg hencoding]
    rfl
  · exact hread.body.trans hbody

end

/-! ## The whole connection -/

/-- A client sends a body with `POST` only. -/
theorem WrittenRequest.input_eq (r : WrittenRequest) :
    (if r.parsed.methodStr = ascii "POST" then r.parsed.buffer else []) = r.body := by
  split_ifs with hpost
  · rfl
  · exact (r.other_body fun hmethod => hpost (congrArg Method.toBytes hmethod)).1.symm

/-- A program is told how long the body of the request is, and is sent this body. -/
structure ReceivesBody (config : Config) (clientRemoteAddr : Option Bytes) (r : WrittenRequest)
    (service : CgiService) : Prop where
  length : ∀ it vhost, getenv (ascii "CONTENT_LENGTH")
    (envStrs it (buildCgiEnvironment config r.parsed vhost clientRemoteAddr)) =
      some (toDecimal r.body.length)
  body : service.dialogue.consumed ++ service.last.stdinPipe.bytes = r.body

theorem RunsProgram.receivesBody {env : Environment} {config : Config}
    {clientRemoteAddr : Option Bytes} {r : WrittenRequest} {service : CgiService} {page : CgiPage}
    (h : RunsProgram env config clientRemoteAddr r.parsed service page) :
    ReceivesBody config clientRemoteAddr r service where
  length it vhost := by
    rw [getenv_contentLength, r.input_eq]
  body := by
    rw [service.consumed_append, CgiSetting.input, h.started.1, r.input_eq]

/--
A client writes requests that are routed to programs.  Every program receives the
body of its request, and the client reads the pages that the programs have
written: all of them, in the order of the requests, up to the first request that
wants the connection closed.
-/
theorem serveConnection_programs (setting : ThreadSetting) (os : OsState)
    (rs : List WrittenRequest) (service : Nat → CgiService) (page : Nat → CgiPage)
    (hprograms : ∀ k r, rs[k]? = some r → RunsProgram (setting.env k) setting.config
      setting.clientRemoteAddr r.parsed (service k) (page k))
    (reads : List Bytes) (hreads : ∀ data ∈ reads, data ≠ [])
    (hstream : reads.flatten = rs.flatMap WrittenRequest.bytes)
    (hlines : RequestParser.StreamLinesWithin reads.flatten)
    (answers : List Answer) (hanswers : ∀ a ∈ answers, a.fails = false)
    (hwriting : (serveConnection setting os (untilEnd reads) answers).stage ≠ .writing) :
    (∀ k r, rs[k]? = some r →
      ReceivesBody setting.config setting.clientRemoteAddr r (service k)) ∧
    ∃ decoded,
      readResponses (rs.map WrittenRequest.method)
          ((serveConnection setting os (untilEnd reads) answers).written.flatMap Written.bytes) =
        some decoded ∧
      decoded.length = (uptoClose (rs.map WrittenRequest.parsed)).length ∧
      ∀ k response, decoded[k]? = some response → HoldsPage (page k) response := by
  refine ⟨fun k r hr => (hprograms k r hr).receivesBody, ?_⟩
  have hbodied : ∀ k r (reply : Reply), rs[k]? = some r → reply.request = r.parsed →
      hasNoBody reply.request.method (page k).status.1.value.toNat = false := by
    intro k r reply hr hrequest
    rw [hrequest]
    exact (hprograms k r hr).bodied
  obtain ⟨decoded, hread, hlength, hall⟩ := serveConnection_expected setting os rs
    (fun k => IsPageReply (page k)) (fun k r hr => (hprograms k r hr).expects)
    (fun k r reply hr hrequest hreply => (hreply.understood (hbodied k r reply hr hrequest)).2)
    reads hreads hstream hlines answers hanswers hwriting
  refine ⟨decoded, hread, hlength, fun k response hk => ?_⟩
  obtain ⟨r, reply, hr, hrequest, hreply, hmatch⟩ := hall k response hk
  exact hreply.holdsPage (hbodied k r reply hr hrequest) hmatch

/-- A program that sends the body of the request back under a header of its own. -/
def echoPage : CgiPage where
  lines := [ascii "A: b"]
  lines_ne := by simp
  text := by simpa using ⟨by decide, by decide, by decide⟩
  lineEnd := .lf
  body := ascii "ab"
  noBlank _ := by decide
  code := by
    intro text htext
    cases htext
  fields := by decide

def echoLabels : List CgiLabel :=
  [.child (.writeOutput (ascii "A: b\n")), .parent (.put 2), .child (.readInput 1), .parent .go,
    .parent .go, .parent .second, .parent .go, .parent (.take 3), .child (.readInput 1),
    .child (.writeOutput (ascii "\nab")), .child (.exit (.exited 0)), .parent .go,
    .parent (.take 5), .parent .go, .parent .go, .parent .go]

def echoThread : ThreadSetting where
  config := textConfig
  env _ := scriptEnvironment (ascii "A: b\n\nab")
  accepting _ := true
  clientIp := []
  iteration := .inOrder

def echoReads : List Bytes :=
  [ascii "POST /hello.sh HTTP/1.1\r\nContent-Le", ascii "ngth: 2\r\n\r\na", ascii "b"]

theorem serveConnection_programs_echo :
    ∃ service : CgiService, service.dialogue.consumed = ascii "ab" ∧ ∃ decoded,
      readResponses [.POST] ((serveConnection echoThread {} (untilEnd echoReads)
        [.write (.ok 30), .write (.ok 59)]).written.flatMap Written.bytes) = some decoded ∧
      decoded.length = 1 ∧
      ∀ (k : Nat) response, decoded[k]? = some response → HoldsPage echoPage response := by
  let length : WrittenHeader :=
    { name := ascii "Content-Length", padding := [SP], value := ascii "2", lineEnd := .crlf
      name_ne := by decide, name_noColon := by decide
      name_noSpace := List.forall_iff_forall_mem.1 (by decide)
      padding_blank := by simp, value_noLF := by decide
      value_head := by rintro c ⟨⟩; decide
      value_last := by rintro c ⟨⟩; decide }
  let post : WrittenRequest :=
    { method := .POST, uri := ascii "/hello.sh", lineEnd := .crlf, headers := [length]
      blankEnd := .crlf, body := ascii "ab", uri_ne := by decide, uri_noSP := by decide
      uri_noLF := by decide, names_distinct := by decide, body_le := by decide
      post_length := fun _ => ⟨length, by simp, by decide, by decide⟩
      other_body := fun hother => absurd rfl hother }
  let cgi : CgiSetting := { request := post.parsed, timeoutSeconds := 10 }
  have hrun := (Machine.Run.init (M := cgiProcesses cgi) rfl).record echoLabels rfl
  let service : CgiService := ⟨cgi, _, _, ascii "A: b\n\nab", hrun, rfl⟩
  have hcgi : (match route (scriptEnvironment (ascii "A: b\n\nab")) textConfig post.parsed with
      | .cgi _ _ => true
      | _ => false) = true := by decide +kernel
  obtain ⟨vhost, path, hroute⟩ : ∃ vhost path,
      route (scriptEnvironment (ascii "A: b\n\nab")) textConfig post.parsed = .cgi vhost path := by
    split at hcgi
    case h_1 vhost path hroute => exact ⟨vhost, path, hroute⟩
    case h_2 => cases hcgi
  have hprogram : RunsProgram (scriptEnvironment (ascii "A: b\n\nab")) textConfig none post.parsed
      service echoPage :=
    { started := ⟨rfl, rfl⟩
      called := ⟨vhost, path, hroute, rfl⟩
      writes := rfl
      bodied := rfl }
  have honly : ∀ (k : Nat) r, [post][k]? = some r → RunsProgram (echoThread.env k)
      echoThread.config echoThread.clientRemoteAddr r.parsed service echoPage := by
    intro k r hk
    obtain rfl := List.mem_singleton.1 (List.mem_of_getElem? hk)
    exact hprogram
  obtain ⟨-, hpages⟩ := serveConnection_programs echoThread {} [post] (fun _ => service)
    (fun _ => echoPage) honly echoReads (by decide) (by decide)
    (RequestParser.linesWithin_of_length (by decide)) [.write (.ok 30), .write (.ok 59)]
    (by simp [Answer.fails]) (by decide +kernel)
  exact ⟨service, rfl, hpages⟩

end CppHttpd
