import CppHttpd.Http.Connection.Message
import CppHttpd.Http.Handlers.Route

/-!
# Which responses can be delimited

The status responses carry no `Content-Length`, except for the one that asks for
credentials.  A client that keeps its connection cannot tell where they end,
unless it has sent a HEAD request.
-/

namespace CppHttpd

open CppHttpd.Foundation

/-! ## The output of CGI programs -/

def headerField (line : Bytes) : Option (Bytes × Bytes) :=
  let field := parseHeaderLine line false
  if line = [] ∨ compareEq line 0 8 (ascii "Status: ") (zero_le_length _) = true ∨ field.1 = [] ∨
    isReservedHeader field.1 = true then none
  else some field

def cgiField (line : Bytes) : Option (Bytes × Bytes) :=
  headerField (if line.getLast? = some CR then line.dropLast else line)

def cgiFields (headerBlock : Bytes) : List (Bytes × Bytes) :=
  (getLines LF headerBlock).filterMap cgiField

theorem cgiHeader_headers (uninitialised : Int) (response : HttpResponse) (line : Bytes) :
    (cgiHeader uninitialised response line).headers =
      (headerField line).elim response.headers fun field =>
        response.headers.insert field.1 field.2 := by
  unfold cgiHeader headerField
  dsimp only
  split_ifs <;> simp_all

theorem foldl_cgiLine_headers (uninitialised : Int) (lines : List Bytes)
    (response : HttpResponse) :
    (lines.foldl (cgiLine uninitialised) response).headers =
      (lines.filterMap cgiField).foldl (fun m field => m.insert field.1 field.2)
        response.headers := by
  induction lines generalizing response with
  | nil => rfl
  | cons line lines ih =>
      rw [List.foldl_cons, ih, cgiLine, cgiHeader_headers, List.filterMap_cons, cgiField]
      cases headerField _ <;> rfl

/-- The body in one chunk, unless it is empty, and the last chunk. -/
def chunkEncode (body : Bytes) : Bytes :=
  (if body ≠ [] then
    HttpResponse.toHex body.length ++ HttpResponse.crlf ++ body ++ HttpResponse.crlf else []) ++
    ascii "0\r\n\r\n"

theorem chunkEncoded_chunkEncode (body : Bytes) : ChunkEncoded (chunkEncode body) := by
  unfold chunkEncode
  split_ifs with hbody
  · exact .chunk hbody .last
  · exact .last

theorem chunkEncode_ne_nil (body : Bytes) : chunkEncode body ≠ [] := by
  have hlast : ascii "0\r\n\r\n" ≠ [] := by decide
  simp [chunkEncode, hlast]

def lastValue (headerBlock name : Bytes) : Option Bytes :=
  ((cgiFields headerBlock).filter (·.1 = name)).getLast?.map Prod.snd

/--
No line of the output writes a framing header in a spelling of its own, or those
that do agree on one `Content-Length` that is the size of the chunks.
-/
def FramedOutput (headerBlock body : Bytes) : Prop :=
  (∀ field ∈ cgiFields headerBlock, isFraming field.1 = false) ∨
    ∃ name value, isContentLength name = true ∧ lastValue headerBlock name = some value ∧
      decimalValue value = some (chunkEncode body).length ∧
      ∀ field ∈ cgiFields headerBlock, isContentLength field.1 = true → field.1 = name

section

variable {it : HttpResponse.Iteration} {request : HttpRequest} {uninitialised : Int}
  {headerBlock body : Bytes}

theorem mem_cgiResponse {name : Bytes} :
    name ∈ (cgiResponse uninitialised headerBlock body).headers ↔
      name = ascii "Transfer-Encoding" ∨ ∃ field ∈ cgiFields headerBlock, field.1 = name := by
  unfold cgiResponse
  simp only [HttpResponse.setHeader, AList.mem_insert, foldl_cgiLine_headers, mem_foldl_insert]
  simp [HttpResponse.ofStatus, cgiFields]

theorem lookup_cgiResponse {name : Bytes} (hname : name ≠ ascii "Transfer-Encoding") :
    (cgiResponse uninitialised headerBlock body).headers.lookup name =
      lastValue headerBlock name := by
  unfold cgiResponse
  simp only [HttpResponse.setHeader, AList.lookup_insert_ne hname, foldl_cgiLine_headers,
    lookup_foldl_insert]
  simp [HttpResponse.ofStatus, lastValue, cgiFields]

theorem lookup_cgiResponse_chunked :
    (cgiResponse uninitialised headerBlock body).headers.lookup (ascii "Transfer-Encoding") =
      some (ascii "chunked") := AList.lookup_insert _

theorem sent_cgiResponse_body :
    (sentMessage it request (cgiResponse uninitialised headerBlock body)).body =
      chunkEncode body := by
  have hchunked : HttpResponse.isChunked
      ((cgiResponse uninitialised headerBlock body).headers.insert (ascii "Connection")
        (connectionValue request)) = true := by
    rw [isChunked_setHeader, HttpResponse.isChunked, lookup_cgiResponse_chunked]
    simp
  have hbody : (cgiResponse uninitialised headerBlock body).body = body := rfl
  simp [sentMessage, cgiResponse_bodyFd, HttpResponse.setHeader, HttpResponse.bodyToBytes,
    hchunked, hbody, chunkEncode]

theorem headerField_not_reserved {line : Bytes} {field : Bytes × Bytes}
    (h : headerField line = some field) : isReservedHeader field.1 = false := by
  unfold headerField at h
  dsimp only at h
  split_ifs at h with hskip
  cases h
  simp only [not_or, Bool.not_eq_true] at hskip
  exact hskip.2.2.2

theorem cgiFields_ne {field : Bytes × Bytes} (h : field ∈ cgiFields headerBlock) :
    field.1 ≠ ascii "Transfer-Encoding" := by
  obtain ⟨line, -, hline⟩ := List.mem_filterMap.1 h
  have hreserved := headerField_not_reserved hline
  intro hname
  rw [hname] at hreserved
  revert hreserved
  decide

theorem cgiResponse_selfDelimiting_iff :
    SelfDelimiting request.method
        (sentMessage it request (cgiResponse uninitialised headerBlock body)) ↔
      FramedOutput headerBlock body := by
  have hfile : (sentMessage it request
      (cgiResponse uninitialised headerBlock body)).fileSize = 0 := by
    simp [sentMessage, cgiResponse_bodyFd]
  have hlength : ∀ {name}, isContentLength name = true →
      name ≠ ascii "Transfer-Encoding" := by
    rintro name hname rfl
    revert hname
    decide
  constructor
  · intro hself
    cases hself with
    | bodiless hstatus hbody hfile =>
        rw [sent_cgiResponse_body] at hbody
        exact absurd hbody (chunkEncode_ne_nil body)
    | chunked hfields hbody hfile =>
        obtain ⟨-, -, honly⟩ := (sent_fields_iff (by decide)).1 hfields
        refine .inl fun field hmem => ?_
        by_contra hframing
        exact cgiFields_ne hmem (honly field.1 (mem_cgiResponse.2 (.inr ⟨field, hmem, rfl⟩))
          (by simpa using hframing))
    | length hfields hvalue hsize =>
        obtain ⟨hname, hlookup, honly⟩ := (sent_fields_iff (by decide)).1 hfields
        rw [lookup_cgiResponse (hlength hname)] at hlookup
        rw [hfile, sent_cgiResponse_body] at hsize
        refine .inr ⟨_, _, hname, hlookup, ?_, fun field hmem =>
          honly field.1 (mem_cgiResponse.2 (.inr ⟨field, hmem, rfl⟩))⟩
        rw [hvalue]
        congr 1
        omega
  · rintro (hplain | ⟨name, value, hname, hlookup, hvalue, honly⟩)
    · refine .chunked ((sent_fields_iff (by decide)).2
        ⟨by decide, lookup_cgiResponse_chunked, fun key hmem hkey => ?_⟩) ?_ hfile
      · rcases mem_cgiResponse.1 hmem with rfl | ⟨field, hfield, rfl⟩
        · rfl
        · rw [hplain field hfield] at hkey
          cases hkey
      · rw [sent_cgiResponse_body]
        exact chunkEncoded_chunkEncode body
    · refine .length ((sent_fields_iff (by decide)).2
        ⟨hname, (lookup_cgiResponse (hlength hname)).trans hlookup, fun key hmem hkey => ?_⟩)
        hvalue ?_
      · rcases mem_cgiResponse.1 hmem with rfl | ⟨field, hfield, rfl⟩
        · exact absurd rfl (hlength hkey)
        · exact honly field hfield hkey
      · rw [hfile, sent_cgiResponse_body]
        simp

end

/-! ## The other responses -/

def Returns (P : HttpResponse → Prop) (r : Except NoReturn HttpResponse × OsState) : Prop :=
  ∀ response, r.1 = .ok response → P response

theorem returns_ok {P : HttpResponse → Prop} {response : HttpResponse} {s : OsState} :
    Returns P (.ok response, s) ↔ P response := by
  simp [Returns]

theorem returns_error {P : HttpResponse → Prop} {e : NoReturn} {s : OsState} :
    Returns P (.error e, s) := by
  simp [Returns]

theorem runCgi_returns_iff {P : HttpResponse → Prop} {env : Environment} {config : Config}
    {path : Bytes} {request : HttpRequest} {vhost : Option VirtualHost}
    {clientRemoteAddr : Option Bytes} {s : OsState} :
    Returns P (runCgi env config path request vhost clientRemoteAddr s) ↔
      ∀ outcome, env.cgi (cgiCall config path request vhost clientRemoteAddr) =
        .returned outcome → P (cgiOutcomeResponse env.uninitialised outcome) := by
  unfold runCgi
  cases env.cgi (cgiCall config path request vhost clientRemoteAddr) with
  | returned outcome => simp [Returns, CgiEnding.result]
  | terminated => simp [Returns, CgiEnding.result]
  | waiting => simp [Returns, CgiEnding.result]

section

variable {it : HttpResponse.Iteration} {env : Environment} {request : HttpRequest}

theorem onlyLength_ofStatus (code : StatusCode) :
    OnlyLength (HttpResponse.ofStatus code).headers := onlyLength_empty

theorem OnlyLength.delimited_iff {response : HttpResponse} (h : OnlyLength response.headers) :
    Delimited it request response ↔ wantsClose request = true ∨
      ((response.statusCode = .NoContent ∨ response.statusCode = .NotModified ∨
          request.method = .HEAD) ∧ bodySize response = 0) ∨
        ∃ value n, response.headers.lookup (ascii "Content-Length") = some value ∧
          decimalValue value = some n ∧ bodySize response = n := by
  rw [CppHttpd.delimited_iff, h.selfDelimiting_iff]

theorem OnlyLength.unframed_iff {response : HttpResponse} (h : OnlyLength response.headers)
    (hlookup : response.headers.lookup (ascii "Content-Length") = none)
    (hsize : bodySize response = 0)
    (hstatus : response.statusCode ≠ .NoContent ∧ response.statusCode ≠ .NotModified) :
    Delimited it request response ↔ wantsClose request = true ∨ request.method = .HEAD := by
  rw [h.delimited_iff]
  simp [hlookup, hsize, hstatus]

theorem OnlyLength.delimited_of_length {response : HttpResponse} {n : Nat}
    (h : OnlyLength response.headers)
    (hlookup : response.headers.lookup (ascii "Content-Length") = some (toDecimal n))
    (hsize : bodySize response = n) : Delimited it request response :=
  h.delimited_iff.2 (.inr (.inr ⟨_, n, hlookup, decimalValue_toDecimal n, hsize⟩))

theorem ofStatus_delimited_iff {code : StatusCode}
    (hstatus : code ≠ .NoContent ∧ code ≠ .NotModified) :
    Delimited it request (.ofStatus code) ↔
      wantsClose request = true ∨ request.method = .HEAD :=
  (onlyLength_ofStatus code).unframed_iff rfl rfl hstatus

theorem unauthorizedResponse_delimited : Delimited it request unauthorizedResponse := by
  have honly : OnlyLength unauthorizedResponse.headers :=
    ((onlyLength_ofStatus _).setHeader (by decide)).setHeader fun _ => rfl
  exact honly.delimited_of_length (n := 0) (AList.lookup_insert _) rfl

theorem optionsResponse_delimited : Delimited it request (optionsResponse env) := by
  have honly : OnlyLength (optionsResponse env).headers :=
    ((onlyLength_ofStatus _).setHeader (by decide)).setHeader (by decide)
  exact honly.delimited_iff.2 (.inr (.inl ⟨.inl rfl, rfl⟩))

theorem notModifiedResponse_onlyLength (st : Stat) :
    OnlyLength (notModifiedResponse env st).headers :=
  (((onlyLength_ofStatus _).setHeader (by decide)).setHeader (by decide)).setHeader (by decide)

theorem notModifiedResponse_delimited (st : Stat) :
    Delimited it request (notModifiedResponse env st) :=
  (notModifiedResponse_onlyLength st).delimited_iff.2 (.inr (.inl ⟨.inr (.inl rfl), rfl⟩))

theorem rangeNotSatisfiable_onlyLength (st : Stat) :
    OnlyLength (rangeNotSatisfiable st).headers :=
  (onlyLength_ofStatus _).setHeader (by decide)

theorem rangeNotSatisfiable_delimited_iff (st : Stat) :
    Delimited it request (rangeNotSatisfiable st) ↔
      wantsClose request = true ∨ request.method = .HEAD := by
  refine (rangeNotSatisfiable_onlyLength st).unframed_iff ?_ rfl ?_
  · exact (AList.lookup_insert_ne (by decide)).trans rfl
  · change StatusCode.RangeNotSatisfiable ≠ _ ∧ StatusCode.RangeNotSatisfiable ≠ _
    decide

theorem fileResponse_onlyLength (code : StatusCode) (path : Bytes) (st : Stat) :
    OnlyLength (fileResponse env code path st).headers :=
  ((((((onlyLength_ofStatus _).setHeader (by decide)).setHeader (by decide)).setHeader
    (by decide)).setHeader (by decide)).setHeader (by decide)).setHeader (by decide)

theorem wholeResponse_onlyLength (path : Bytes) (st : Stat) (fd : Fd) :
    OnlyLength (wholeResponse env path st fd).headers := by
  simp only [wholeResponse]
  exact (fileResponse_onlyLength _ _ _).setHeader fun _ => rfl

theorem wholeResponse_delimited (path : Bytes) (st : Stat) (fd : Fd) :
    Delimited it request (wholeResponse env path st fd) :=
  (wholeResponse_onlyLength path st fd).delimited_of_length (AList.lookup_insert _) rfl

theorem rangeResponse_onlyLength (path : Bytes) (st : Stat) (fd : Fd) (start last : Nat) :
    OnlyLength (rangeResponse env path st fd start last).headers := by
  simp only [rangeResponse]
  exact ((fileResponse_onlyLength _ _ _).setHeader (by decide)).setHeader fun _ => rfl

theorem rangeResponse_delimited (path : Bytes) (st : Stat) (fd : Fd) (start last : Nat) :
    Delimited it request (rangeResponse env path st fd start last) :=
  (rangeResponse_onlyLength path st fd start last).delimited_of_length (AList.lookup_insert _)
    rfl

theorem listingResponse_onlyLength (body : Bytes) : OnlyLength (listingResponse body).headers :=
  ((onlyLength_ofStatus _).setHeader (by decide)).setHeader fun _ => rfl

theorem listingResponse_delimited (body : Bytes) :
    Delimited it request (listingResponse body) :=
  (listingResponse_onlyLength body).delimited_of_length (AList.lookup_insert _) rfl

/-! ## HEAD requests -/

theorem withoutBody_head (hhead : request.method = .HEAD) {P Q : HttpResponse → Prop}
    {call : Call HttpResponse} {s : OsState} (h : Returns P (call s))
    (himp : ∀ {response : HttpResponse}, P response →
      Q { response with bodyFd := none, body := [] }) :
    Returns Q (withoutBody request call s) := by
  unfold withoutBody
  revert h
  cases call s with
  | mk result s' =>
      cases result with
      | error e => exact fun _ => returns_error
      | ok response =>
          intro h
          refine returns_ok.2 ?_
          rw [dropBody, if_pos hhead]
          exact himp (returns_ok.1 h)

theorem withoutBody_delimited (hhead : request.method = .HEAD) {call : Call HttpResponse}
    {s : OsState} (h : Returns (fun response => OnlyLength response.headers) (call s)) :
    Returns (Delimited it request) (withoutBody request call s) := by
  refine withoutBody_head hhead h fun {response} honly => ?_
  have hdropped : OnlyLength { response with bodyFd := none, body := [] }.headers := honly
  exact hdropped.delimited_iff.2 (.inr (.inl ⟨.inr (.inr hhead), rfl⟩))

theorem withoutBody_other (hhead : request.method ≠ .HEAD) (call : Call HttpResponse)
    (s : OsState) : withoutBody request call s = call s := by
  unfold withoutBody
  cases call s with
  | mk result s' => cases result <;> simp [dropBody, hhead]

/-! ## Files and directories -/

/-- A file is answered with its state, its bytes, a range of them, or an exception. -/
def FramedFile (env : Environment) (request : HttpRequest) (path : Bytes) (s : OsState) : Prop :=
  ∃ st, env.fs.statPath path = some st ∧ st.kind = .regular ∧
    (notModified env request st = true ∨
      checkAccept request (contentTypeFromSuffix path) = true ∧
        (s.openFile env path).1.isSome = true ∧
        (getHeader request.headers (ascii "range") = [] ∨
          parseRange (getHeader request.headers (ascii "range")) st.size ≠ .ok none))

theorem serveOpenFile_onlyLength (path : Bytes) (st : Stat) (fd : Fd) (s : OsState) :
    Returns (fun response => OnlyLength response.headers)
      (serveOpenFile env path request st fd s) := by
  unfold serveOpenFile
  dsimp only
  split_ifs
  · rcases parseRange (getHeader request.headers (ascii "range")) st.size with
      e | _ | ⟨start, last⟩
    · exact returns_error
    · exact returns_ok.2 (rangeNotSatisfiable_onlyLength st)
    · exact returns_ok.2 (rangeResponse_onlyLength path st fd start last)
  · exact returns_ok.2 (wholeResponse_onlyLength path st fd)

theorem serveStaticFile_onlyLength (path : Bytes) (s : OsState) :
    Returns (fun response => OnlyLength response.headers)
      (serveStaticFile env path request s) := by
  unfold serveStaticFile
  cases env.fs.statPath path with
  | none => exact returns_ok.2 (onlyLength_ofStatus _)
  | some st =>
      dsimp only
      split_ifs
      · exact returns_ok.2 (onlyLength_ofStatus _)
      · exact returns_ok.2 (notModifiedResponse_onlyLength st)
      · exact returns_ok.2 (onlyLength_ofStatus _)
      · rcases s.openFile env path with ⟨_ | fd, s'⟩
        · exact returns_ok.2 (onlyLength_ofStatus _)
        · exact serveOpenFile_onlyLength path st fd s'

theorem serveOpenFile_returns_iff (hhead : request.method ≠ .HEAD) (path : Bytes) (st : Stat)
    (fd : Fd) (s : OsState) :
    Returns (Delimited it request) (serveOpenFile env path request st fd s) ↔
      wantsClose request = true ∨ getHeader request.headers (ascii "range") = [] ∨
        parseRange (getHeader request.headers (ascii "range")) st.size ≠ .ok none := by
  unfold serveOpenFile
  by_cases hrange : getHeader request.headers (ascii "range") = []
  · simp [hrange, returns_ok, wholeResponse_delimited]
  · simp only [ne_eq, hrange, not_false_eq_true, if_true, false_or]
    rcases parseRange (getHeader request.headers (ascii "range")) st.size with
      e | _ | ⟨start, last⟩
    · simp [returns_error]
    · simp [returns_ok, rangeNotSatisfiable_delimited_iff, hhead]
    · simp [returns_ok, rangeResponse_delimited]

theorem serveStaticFile_returns_iff (hhead : request.method ≠ .HEAD) (path : Bytes)
    (s : OsState) :
    Returns (Delimited it request) (serveStaticFile env path request s) ↔
      wantsClose request = true ∨ FramedFile env request path s := by
  have hstatus : ∀ code : StatusCode, code ≠ .NoContent ∧ code ≠ .NotModified → ∀ s',
      (Returns (Delimited it request) (.ok (.ofStatus code), s') ↔
        wantsClose request = true) := by
    intro code hcode s'
    rw [returns_ok, ofStatus_delimited_iff hcode]
    simp [hhead]
  unfold serveStaticFile FramedFile
  cases env.fs.statPath path with
  | none => simp [hstatus .NotFound (by decide)]
  | some st =>
      dsimp only
      split_ifs with hkind hmodified haccept
      · simp [hstatus .NotFound (by decide), hkind]
      · simp only [ne_eq, not_not] at hkind
        simp [returns_ok, notModifiedResponse_delimited, hkind, hmodified]
      · simp only [Bool.not_eq_true'] at haccept
        simp [hstatus .NotAcceptable (by decide), hmodified, haccept]
      · simp only [ne_eq, not_not] at hkind
        simp only [Bool.not_eq_true', Bool.not_eq_false] at haccept
        rcases s.openFile env path with ⟨_ | fd, s'⟩
        · simp [hstatus .InternalServerError (by decide), hmodified]
        · simp [serveOpenFile_returns_iff hhead, hkind, hmodified, haccept]

/-- A directory without an index file is answered with a listing. -/
def FramedDirectory (env : Environment) (request : HttpRequest) (vhost : VirtualHost)
    (path : Bytes) (s : OsState) : Prop :=
  match indexFile env.fs path request vhost.documentRoot with
  | some file => FramedFile env request file s
  | none => ∃ i, env.fs.reach path = some i ∧ env.fs.isDirectory i = true ∧
      env.fs.readable i = true

theorem listingText_ne_nil (uriPath : Bytes) (entries : List DirEntry) :
    listingText env uriPath entries ≠ [] := by
  have hhead : ascii "<!DOCTYPE html>\n<html>\n<head><meta charset=\"utf-8\"><title>" ≠ [] := by
    decide
  simp [listingText, hhead]

theorem buildListing_eq_nil_iff (uriPath path : Bytes) (s : OsState) :
    (buildListing env uriPath path s).1 = [] ↔
      ¬ ∃ i, env.fs.reach path = some i ∧ env.fs.isDirectory i = true ∧
        env.fs.readable i = true := by
  unfold buildListing
  cases env.fs.reach path with
  | none => simp
  | some i =>
      dsimp only
      split_ifs with hopen
      · simp [listingText_ne_nil, hopen]
      · exact iff_of_true rfl (by simpa using hopen)

theorem serveDirectoryIndex_onlyLength (path documentRoot : Bytes) (s : OsState) :
    Returns (fun response => OnlyLength response.headers)
      (serveDirectoryIndex env path request documentRoot s) := by
  unfold serveDirectoryIndex
  cases indexFile env.fs path request documentRoot with
  | some file => exact serveStaticFile_onlyLength file s
  | none =>
      dsimp only
      split_ifs
      · exact returns_ok.2 (onlyLength_ofStatus _)
      · exact returns_ok.2 (listingResponse_onlyLength _)

theorem serveDirectoryIndex_returns_iff (hhead : request.method ≠ .HEAD) (vhost : VirtualHost)
    (path : Bytes) (s : OsState) :
    Returns (Delimited it request)
        (serveDirectoryIndex env path request vhost.documentRoot s) ↔
      wantsClose request = true ∨ FramedDirectory env request vhost path s := by
  unfold serveDirectoryIndex FramedDirectory
  cases indexFile env.fs path request vhost.documentRoot with
  | some file => exact serveStaticFile_returns_iff hhead file s
  | none =>
      dsimp only
      split_ifs with hbody
      · rw [buildListing_eq_nil_iff] at hbody
        rw [returns_ok, ofStatus_delimited_iff (by decide)]
        simp only [hhead, hbody]
      · rw [buildListing_eq_nil_iff, not_not] at hbody
        exact iff_of_true (returns_ok.2 (listingResponse_delimited _)) (.inr hbody)

/-! ## The whole handler -/

def cgiParts : CgiOutcome → Option (Bytes × Bytes)
  | .exited output => splitCgiOutput output
  | _ => none

/-- A program has run so that its response can be delimited. -/
def FramedOutcome (request : HttpRequest) (outcome : CgiOutcome) : Prop :=
  match cgiParts outcome with
  | some (headerBlock, body) => FramedOutput headerBlock body
  | none => request.method = .HEAD

/-- Where a request comes to a response that can be delimited on a connection that is kept. -/
def Framed (env : Environment) (config : Config) (request : HttpRequest)
    (clientRemoteAddr : Option Bytes) (s : OsState) : Route → Prop
  | .unauthorized => True
  | .options => True
  | .cgi vhost path =>
      ∀ outcome, env.cgi (cgiCall config path request (some vhost) clientRemoteAddr) =
        .returned outcome → FramedOutcome request outcome
  | .file path => request.method = .HEAD ∨ FramedFile env request path s
  | .directory vhost path => request.method = .HEAD ∨ FramedDirectory env request vhost path s
  | .unavailable => request.method = .HEAD
  | .load => request.method = .HEAD
  | .forbidden => request.method = .HEAD
  | .notFound => request.method = .HEAD
  | .methodNotAllowed => request.method = .HEAD

theorem cgiOutcomeResponse_delimited_iff (uninitialised : Int) (outcome : CgiOutcome) :
    Delimited it request (cgiOutcomeResponse uninitialised outcome) ↔
      wantsClose request = true ∨ FramedOutcome request outcome := by
  cases outcome with
  | exited output =>
      simp only [cgiOutcomeResponse, parseCgiOutput, FramedOutcome, cgiParts]
      cases splitCgiOutput output with
      | none => exact ofStatus_delimited_iff (by decide)
      | some parts => rw [delimited_iff, cgiResponse_selfDelimiting_iff]
  | _ => exact ofStatus_delimited_iff (by decide)

/--
Every response that a client keeps its connection for can be delimited, exactly
for the requests that come to a framed response.
-/
theorem handle_delimited_iff (it : HttpResponse.Iteration) (env : Environment) (config : Config)
    (request : HttpRequest) (acceptingNewConnections : Bool) (clientRemoteAddr : Option Bytes)
    (s : OsState) :
    (∀ response, (handle env config request acceptingNewConnections clientRemoteAddr s).1 =
        .ok response → Delimited it request response) ↔
      wantsClose request = true ∨
        Framed env config request clientRemoteAddr s (route env config request) := by
  rw [handle_eq]
  change Returns (Delimited it request) _ ↔ _
  cases route env config request with
  | unavailable => exact returns_ok.trans (ofStatus_delimited_iff (by decide))
  | load =>
      cases acceptingNewConnections with
      | false => exact returns_ok.trans (ofStatus_delimited_iff (by decide))
      | true => exact returns_ok.trans (ofStatus_delimited_iff (by decide))
  | forbidden => exact returns_ok.trans (ofStatus_delimited_iff (by decide))
  | notFound => exact returns_ok.trans (ofStatus_delimited_iff (by decide))
  | methodNotAllowed => exact returns_ok.trans (ofStatus_delimited_iff (by decide))
  | unauthorized => exact iff_of_true (returns_ok.2 unauthorizedResponse_delimited) (.inr trivial)
  | options => exact iff_of_true (returns_ok.2 optionsResponse_delimited) (.inr trivial)
  | cgi vhost path =>
      simp only [answer, runCgi_returns_iff, cgiOutcomeResponse_delimited_iff, Framed,
        forall_or_left]
  | file path =>
      by_cases hhead : request.method = .HEAD
      · exact iff_of_true (withoutBody_delimited hhead (serveStaticFile_onlyLength path s))
          (.inr (.inl hhead))
      · simp only [answer, withoutBody_other hhead, serveStaticFile_returns_iff hhead, Framed,
          hhead, false_or]
  | directory vhost path =>
      by_cases hhead : request.method = .HEAD
      · exact iff_of_true
          (withoutBody_delimited hhead
            (serveDirectoryIndex_onlyLength path vhost.documentRoot s))
          (.inr (.inl hhead))
      · simp only [answer, withoutBody_other hhead, serveDirectoryIndex_returns_iff hhead, Framed,
          hhead, false_or]

end

/-- What a parser makes of a request for a file that does not exist. -/
def missingFile : RequestParser := RequestParser.feed {} (ascii "GET /missing HTTP/1.1\r\n\r\n")

/-- Nothing in the response says that no body follows. -/
theorem not_found_not_delimited :
    let config : Config := { virtualHosts := [⟨ascii "/", ascii "localhost"⟩] }
    let env := Environment.still (.flat []) fun _ => .forkFailed
    let request := missingFile.getRequest.1
    missingFile.hasRequest = true ∧
      handle env config request true none {} = (.ok (.ofStatus .NotFound), {}) ∧
      (packageResponse .inOrder request (.ofStatus .NotFound)).bytes =
        ascii "HTTP/1.1 404 Not Found\r\nConnection: keep-alive\r\n\r\n" ∧
      ¬ Delimited .inOrder request (.ofStatus .NotFound) := by
  refine ⟨by decide, rfl, by decide, ?_⟩
  rw [ofStatus_delimited_iff (by decide)]
  decide

end CppHttpd
