import CppHttpd.Http.Handlers.AcceptHeader
import CppHttpd.Http.Handlers.Revalidation
import CppHttpd.Server.ExpectedReplies

/-!
# Files over a connection

Requests are written by a client, cut up by the network, parsed, routed to files
and answered with them, and the answers are cut up by the network again.  What
the client reads in the end are the files that it asked for.
-/

namespace CppHttpd

open CppHttpd.Foundation

/-! ## Requests for files -/

/-- The request is answered with the whole file. -/
structure ServesFile (env : Environment) (config : Config) (request : HttpRequest) (path : Bytes)
    (i : Inode) : Prop where
  served : servedFile env config request = some path
  reached : env.fs.reach path = some i
  regular : (env.fs.stat i).kind = .regular
  readable : env.fs.readable i = true
  sized : (env.fs.content i).length = (env.fs.stat i).size
  get : request.method = .GET
  modified : notModified env request (env.fs.stat i) = false
  acceptable : checkAccept request (contentTypeFromSuffix path) = true
  whole : getHeader request.headers (ascii "range") = []

/-- There is a descriptor left, and dates are written without line ends. -/
structure Capable (env : Environment) : Prop where
  newFd : ∀ used, (env.newFd used).isSome = true
  dates : ∀ time, CleanValue (env.formatHttpDate time)

section

variable {env : Environment} {config : Config} {request : HttpRequest} {path : Bytes} {i : Inode}

/-- The file of the request is found, and nothing speaks against sending it. -/
structure FindsFile (env : Environment) (config : Config) (request : HttpRequest) (path : Bytes)
    (i : Inode) : Prop where
  served : servedFile env config request = some path
  reached : env.fs.reach path = some i
  regular : (env.fs.stat i).kind = .regular
  readable : env.fs.readable i = true
  sized : (env.fs.content i).length = (env.fs.stat i).size
  get : request.method = .GET
  modified : notModified env request (env.fs.stat i) = false
  acceptable : checkAccept request (contentTypeFromSuffix path) = true

theorem FindsFile.handle_eq (h : FindsFile env config request path i) (hcapable : Capable env)
    (acceptingNewConnections : Bool) (clientRemoteAddr : Option Bytes) (s : OsState) :
    ∃ fd, handle env config request acceptingNewConnections clientRemoteAddr s =
      serveOpenFile env path request (env.fs.stat i) fd
        { openFds := fd :: s.openFds, accesses := .served i :: s.accesses } := by
  obtain ⟨fd, hfd⟩ := Option.isSome_iff_exists.1 (hcapable.newFd s.openFds)
  have hopens : Opens env path request s (env.fs.stat i) fd
      { openFds := fd :: s.openFds, accesses := .served i :: s.accesses } :=
    { stat := by rw [FileSystem.statPath, h.reached, Option.map_some]
      regular := h.regular
      modified := h.modified
      acceptable := h.acceptable
      opened := by simp [OsState.openFile, h.reached, h.readable, hfd] }
  refine ⟨fd, ?_⟩
  rw [handle_servedFile h.served, withoutBody_other (by simp [h.get]), hopens.serveStaticFile_eq]

theorem ServesFile.findsFile (h : ServesFile env config request path i) :
    FindsFile env config request path i :=
  { h with }

theorem ServesFile.handle_eq (h : ServesFile env config request path i) (hcapable : Capable env)
    (acceptingNewConnections : Bool) (clientRemoteAddr : Option Bytes) (s : OsState) :
    ∃ fd, handle env config request acceptingNewConnections clientRemoteAddr s =
      (.ok (wholeResponse env path (env.fs.stat i) fd),
        { openFds := fd :: s.openFds, accesses := .served i :: s.accesses }) := by
  obtain ⟨fd, hfd⟩ := h.findsFile.handle_eq hcapable acceptingNewConnections clientRemoteAddr s
  refine ⟨fd, hfd.trans ?_⟩
  simp [serveOpenFile, h.whole]

/-! ## Their responses -/

theorem contentTypeFromSuffix_clean (path : Bytes) : CleanValue (contentTypeFromSuffix path) := by
  obtain ⟨t, ht⟩ := exists_mediaType path
  have hline : ∀ s ∈ contentTypes, CR ∉ s ∧ LF ∉ s := by decide
  obtain ⟨hcr, hlf⟩ := hline _ (contentTypeFromSuffix_mem path)
  refine cleanValue_of_forall fun c hc => ⟨?_, ?_, ?_, ?_⟩
  · rintro rfl
    exact hcr hc
  · rintro rfl
    exact hlf hc
  · rintro rfl
    exact t.notMem (by simp) (ht ▸ hc)
  · rintro rfl
    exact t.notMem (by simp) (ht ▸ hc)

theorem generateEtag_clean (st : Stat) : CleanValue (generateEtag st) := by
  have hall : ∀ c ∈ [CR, LF, SP, TAB], c ∉ generateEtag st := by
    intro c hc
    have hhex : ∀ c ∈ [CR, LF, SP, TAB], hexDigitValue c = none ∧ c ∉ ascii "\"" ∧
        c ∉ ascii "-" := forall_mem_of_all (by decide)
    obtain ⟨hdigit, hquote, hdash⟩ := hhex c hc
    have hnumber := not_mem_toHex hdigit
    simp only [generateEtag, List.mem_append, not_or]
    exact ⟨⟨⟨⟨⟨⟨hquote, hnumber _⟩, hdash⟩, hnumber _⟩, hdash⟩, hnumber _⟩, hquote⟩
  refine cleanValue_of_forall fun c hc => ⟨?_, ?_, ?_, ?_⟩ <;>
    · rintro rfl
      exact hall _ (by simp) hc

theorem toDecimal_clean (n : Nat) : CleanValue (toDecimal n) := by
  have hdigit : ∀ c ∈ [CR, LF, SP, TAB], isDigit c = false :=
    forall_mem_of_all (by decide)
  refine cleanValue_of_forall fun c hc => ⟨?_, ?_, ?_, ?_⟩ <;>
    · rintro rfl
      exact not_mem_toDecimal (hdigit _ (by simp)) n hc

theorem formatHttpDate_clean (t : Int) : CleanValue (HttpDate.formatHttpDate t) := by
  cases h : gmtime t with
  | none =>
      simp only [HttpDate.formatHttpDate, h]
      exact ⟨by simp, by simp, by simp⟩
  | some tm =>
      rw [HttpDate.formatHttpDate_of_gmtime h]
      obtain ⟨c, rest, hprint, hc⟩ := DateField.exists_cons_print
        (HttpDate.inRange_of_gmtime h (f := .weekday) (by decide))
      have hfirst : ∃ tail, strftime HttpDate.httpDateItems tm = c :: tail :=
        ⟨_, by rw [HttpDate.httpDateItems, HttpDate.dayItems, strftime, List.cons_append,
          List.flatMap_cons, DateItem.print, hprint, List.cons_append]⟩
      have hlast : ∃ front, strftime HttpDate.httpDateItems tm = front ++ [byteOf 'T'] :=
        ⟨strftime HttpDate.httpDateItems.dropLast tm, by
          simp only [strftime, HttpDate.httpDateItems, HttpDate.dayItems, HttpDate.clockItems,
            List.cons_append, List.nil_append, List.dropLast, List.flatMap_cons, List.flatMap_nil,
            DateItem.print, List.append_nil, List.append_assoc]⟩
      refine ⟨⟨?_, ?_⟩, ?_, ?_⟩
      · exact HttpDate.Foreign.notMem_strftime ⟨rfl, by decide, by decide⟩ (by decide) tm
      · exact HttpDate.Foreign.notMem_strftime ⟨rfl, by decide, by decide⟩ (by decide) tm
      · intro d hd
        obtain ⟨tail, htail⟩ := hfirst
        rw [htail] at hd
        cases hd
        constructor
        · rintro rfl
          cases hc
        · rintro rfl
          cases hc
      · intro d hd
        obtain ⟨front, hfront⟩ := hlast
        rw [hfront, List.getLast?_concat] at hd
        cases hd
        decide

/-- The dates that the program writes are fit for a header. -/
theorem Environment.HttpDates.capable (h : env.HttpDates)
    (hnew : ∀ used, (env.newFd used).isSome = true) : Capable env :=
  ⟨hnew, fun time => h.format ▸ formatHttpDate_clean time⟩

theorem connectionValue_clean (request : HttpRequest) :
    CleanValue (connectionValue request) := by
  unfold connectionValue
  split_ifs
  · exact cleanValue_of_forall (forall_mem_of_all (by decide))
  · exact cleanValue_of_forall (forall_mem_of_all (by decide))

theorem Capable.serialisable_fileResponse (h : Capable env) {code : StatusCode}
    (hcode : 100 ≤ code.value ∧ code.value ≤ 999) (path : Bytes) (st : Stat) :
    Serialisable (fileResponse env code path st) :=
  ((((((serialisable_ofStatus hcode).setHeader (by decide) (h.dates _)).setHeader
    (by decide) (cleanValue_of_forall (forall_mem_of_all (by decide)))).setHeader (by decide)
    (contentTypeFromSuffix_clean path)).setHeader (by decide) (h.dates _)).setHeader
    (by decide) (generateEtag_clean st)).setHeader (by decide)
    (cleanValue_of_forall (forall_mem_of_all (by decide)))

theorem Capable.serialisable_wholeResponse (h : Capable env) (path : Bytes) (st : Stat) (fd : Fd) :
    Serialisable (wholeResponse env path st fd) := by
  unfold wholeResponse
  exact ((h.serialisable_fileResponse (by decide) path st).setHeader (by decide)
    (toDecimal_clean st.size)).withFile _ _ _

/-- The only field that frames the body is the length of the file. -/
theorem OnlyLength.framing {t : Transmission} (h : OnlyLength t.response.headers) {value : Bytes}
    (hlength : t.response.headers.lookup (ascii "Content-Length") = some value) :
    t.framing = [⟨ascii "Content-Length", value⟩] :=
  (@filter_order_singleton_iff .inOrder _ isFraming _ _).2 ⟨by decide, hlength, h⟩

theorem ServesFile.understood (h : ServesFile env config request path i) (hcapable : Capable env)
    (fd : Fd) :
    let reply : Reply := ⟨request, wholeResponse env path (env.fs.stat i) fd, env.fs.content i⟩
    reply.transmission.body = env.fs.content i ∧ reply.Understood := by
  intro reply
  have hpart : reply.part = env.fs.content i := by
    simp [reply, Reply.part, wholeResponse, ← h.sized]
  have hpayload : reply.transmission.payload = env.fs.content i := hpart
  have hbody : reply.transmission.body = env.fs.content i := hpart
  have honly : OnlyLength reply.sent.headers :=
    (wholeResponse_onlyLength path (env.fs.stat i) fd).setHeader (by decide)
  have hlength : reply.sent.headers.lookup (ascii "Content-Length") =
      some (toDecimal (env.fs.stat i).size) :=
    (AList.lookup_insert_ne (by decide)).trans (AList.lookup_insert _)
  refine ⟨hbody, ?_, .inl (.length ?_ (honly.framing (t := reply.transmission) hlength) (by decide)
    ?_ ?_)⟩
  · exact (hcapable.serialisable_wholeResponse path _ fd).setHeader (by decide)
      (connectionValue_clean request)
  · change hasNoBody request.method 200 = false
    rw [h.get]
    rfl
  · rw [decimalValue_toDecimal, hpayload, h.sized]
  · rw [hbody, hpayload]

end

/-! ## The whole connection -/

/-- What the client is to read for a file. -/
structure HoldsFile (env : Environment) (path : Bytes) (i : Inode) (response : DecodedResponse) :
    Prop where
  status : response.status = 200
  message : response.message = ascii "OK"
  type : response.headers.lookup (ascii "Content-Type") = some (contentTypeFromSuffix path)
  body : response.body = env.fs.content i

theorem ServesFile.holdsFile {env : Environment} {config : Config} {request : HttpRequest}
    {path : Bytes} {i : Inode} (h : ServesFile env config request path i)
    (hcapable : Capable env) (fd : Fd) {response : DecodedResponse}
    (hread : Transmission.ReadAs (Reply.transmission ⟨request,
      wholeResponse env path (env.fs.stat i) fd, env.fs.content i⟩) response) :
    HoldsFile env path i response where
  status := Int.ofNat.inj hread.status
  message := hread.message
  type := by
    have hother : ∀ name ∈ ["Connection", "Content-Length", "Cache-Control", "ETag",
        "Last-Modified"], ascii "Content-Type" ≠ ascii name := by decide
    rw [AList.perm_lookup hread.headers]
    change (AList.insert _ _ (AList.insert _ _ (AList.insert _ _ (AList.insert _ _
      (AList.insert _ _ (AList.insert _ _ _)))))).lookup _ = _
    rw [AList.lookup_insert_ne (hother "Connection" (by simp)),
      AList.lookup_insert_ne (hother "Content-Length" (by simp)),
      AList.lookup_insert_ne (hother "Cache-Control" (by simp)),
      AList.lookup_insert_ne (hother "ETag" (by simp)),
      AList.lookup_insert_ne (hother "Last-Modified" (by simp)), AList.lookup_insert]
  body := hread.body.trans (h.understood hcapable fd).1

/-- The reply to a request for a file. -/
def IsFileReply (env : Environment) (path : Bytes) (i : Inode) (reply : Reply) : Prop :=
  ∃ fd, reply = ⟨reply.request, wholeResponse env path (env.fs.stat i) fd, env.fs.content i⟩

theorem ServesFile.expects {setting : ThreadSetting} {k : Nat} {request : HttpRequest}
    {path : Bytes} {i : Inode} (h : ServesFile (setting.env k) setting.config request path i)
    (hcapable : Capable (setting.env k)) :
    Expects setting k request (IsFileReply (setting.env k) path i) := by
  intro s
  obtain ⟨fd, hhandle⟩ := h.handle_eq hcapable (setting.accepting k) setting.clientRemoteAddr s
  exact ⟨_, _, hhandle, fd, rfl⟩

/--
A client writes requests for files, and reads the files: all of them, in the order
of the requests, each as it was when its request was handled, up to the first
request that wants the connection closed.
-/
theorem serveConnection_files (setting : ThreadSetting) (os : OsState) (rs : List WrittenRequest)
    (path : Nat → Bytes) (inode : Nat → Inode)
    (hfiles : ∀ k r, rs[k]? = some r →
      ServesFile (setting.env k) setting.config r.parsed (path k) (inode k))
    (hcapable : ∀ k, Capable (setting.env k)) (reads : List Bytes)
    (hreads : ∀ data ∈ reads, data ≠ [])
    (hstream : reads.flatten = rs.flatMap WrittenRequest.bytes)
    (hlines : RequestParser.StreamLinesWithin reads.flatten)
    (answers : List Answer) (hanswers : ∀ a ∈ answers, a.fails = false)
    (hwriting : (serveConnection setting os (untilEnd reads) answers).stage ≠ .writing) :
    ∃ decoded,
      readResponses (rs.map WrittenRequest.method)
          ((serveConnection setting os (untilEnd reads) answers).written.flatMap Written.bytes) =
        some decoded ∧
      decoded.length = (uptoClose (rs.map WrittenRequest.parsed)).length ∧
      ∀ k response, decoded[k]? = some response →
        HoldsFile (setting.env k) (path k) (inode k) response := by
  have hexpects : ∀ k r, rs[k]? = some r →
      Expects setting k r.parsed (IsFileReply (setting.env k) (path k) (inode k)) :=
    fun k r hr => (hfiles k r hr).expects (hcapable k)
  obtain ⟨decoded, hread, hlength, hall⟩ := serveConnection_expected setting os rs
    (fun k => IsFileReply (setting.env k) (path k) (inode k)) hexpects
    (fun k r reply hr hrequest hreply => by
      obtain ⟨fd, hreply⟩ := hreply
      rw [hreply, hrequest]
      exact ((hfiles k r hr).understood (hcapable k) fd).2)
    reads hreads hstream hlines answers hanswers hwriting
  refine ⟨decoded, hread, hlength, fun k response hk => ?_⟩
  obtain ⟨r, reply, hr, hrequest, ⟨fd, hreply⟩, hmatch⟩ := hall k response hk
  rw [hreply, hrequest] at hmatch
  exact (hfiles k r hr).holdsFile (hcapable k) fd hmatch

/-- Two requests for the same file, of which the second closes the connection. -/
def textThread : ThreadSetting where
  config := textConfig
  env _ := textSite
  accepting _ := true
  clientIp := []
  iteration := .inOrder

def textReads : List Bytes :=
  [ascii "GET /a.txt HTTP/1.1\r", ascii "\n\r\nGET /a.txt HTTP/1.1\nConnection:close\n\n"]

/-- The header section in two parts, then a byte of the file, then the rest of it. -/
def textAnswers : List Answer :=
  [.write (.ok 100), .write (.ok 135), .sendfile (.ok 1), .sendfile (.error .again),
    .sendfile (.ok 3), .write (.ok 230), .sendfile (.ok 4)]

theorem capable_textSite : Capable textSite := by
  have hline : CR ∉ textSite.formatHttpDate 0 ∧ LF ∉ textSite.formatHttpDate 0 := by decide
  refine ⟨fun _ => rfl, fun _ => ⟨hline, ?_, ?_⟩⟩
  · rintro c ⟨⟩
    decide
  · rintro c ⟨⟩
    decide

theorem serveConnection_files_text : ∃ decoded,
    readResponses [.GET, .GET] ((serveConnection textThread {} (untilEnd textReads)
      textAnswers).written.flatMap Written.bytes) = some decoded ∧
    decoded.length = 2 ∧
    ∀ (k : Nat) response, decoded[k]? = some response →
      HoldsFile textSite (ascii "/a.txt") 1 response := by
  let connection : WrittenHeader :=
    { name := ascii "Connection", padding := [], value := ascii "close", lineEnd := .lf
      name_ne := by decide, name_noColon := by decide
      name_noSpace := List.forall_iff_forall_mem.1 (by decide)
      padding_blank := by simp, value_noLF := by decide
      value_head := by rintro c ⟨⟩; decide
      value_last := by rintro c ⟨⟩; decide }
  let first : WrittenRequest :=
    { method := .GET, uri := ascii "/a.txt", lineEnd := .crlf, headers := [], blankEnd := .crlf
      body := [], uri_ne := by decide, uri_noSP := by decide, uri_noLF := by decide
      names_distinct := by decide, body_le := by decide
      post_length := fun hpost => by cases hpost
      other_body := fun _ => ⟨rfl, by simp⟩ }
  let last : WrittenRequest :=
    { first with
      lineEnd := .lf, headers := [connection], blankEnd := .lf
      names_distinct := by decide
      post_length := fun hpost => by cases hpost
      other_body := fun _ => ⟨rfl, by decide⟩ }
  have hserves : ∀ r ∈ [first, last],
      ServesFile textSite textConfig r.parsed (ascii "/a.txt") 1 := by
    have hserved : ∀ r ∈ [first, last],
        servedFile textSite textConfig r.parsed = some (ascii "/a.txt") ∧
        notModified textSite r.parsed (textSite.fs.stat 1) = false ∧
        checkAccept r.parsed (contentTypeFromSuffix (ascii "/a.txt")) = true ∧
        getHeader r.parsed.headers (ascii "range") = [] ∧ r.parsed.method = .GET := by
      decide +kernel
    have hreached : textSite.fs.reach (ascii "/a.txt") = some 1 := by decide +kernel
    intro r hr
    obtain ⟨hfile, hmodified, haccept, hrange, hget⟩ := hserved r hr
    exact ⟨hfile, hreached, rfl, rfl, rfl, hget, hmodified, haccept, hrange⟩
  refine serveConnection_files textThread {} [first, last] (fun _ => ascii "/a.txt") (fun _ => 1)
    (fun k r hk => hserves r (List.mem_of_getElem? hk)) (fun _ => capable_textSite) textReads (by decide)
    (by decide) (RequestParser.linesWithin_of_length (by decide)) textAnswers
    (by simp [textAnswers, Answer.fails]) (by decide +kernel)

end CppHttpd
