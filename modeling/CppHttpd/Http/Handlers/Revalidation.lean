import CppHttpd.Http.Core.HttpDate
import CppHttpd.Http.Handlers.AcceptHeader
import CppHttpd.Http.Handlers.ConditionalRequests
import CppHttpd.Http.Handlers.FileVersions
import CppHttpd.Http.Handlers.Framing

/-!
# Revalidation

A client keeps a file together with the tag and the date that came with it, and
asks with them later whether the file is still the same.  The date goes through a
text of seconds on both ways.
-/

namespace CppHttpd

open CppHttpd.Foundation

/-- The dates of the headers are those that the program itself writes and reads. -/
structure Environment.HttpDates (env : Environment) : Prop where
  format : env.formatHttpDate = HttpDate.formatHttpDate
  parse : env.parseHttpDate = HttpDate.parseHttpDate

/-- The whole file or a part of it is sent. -/
def SendsFile (response : HttpResponse) : Prop :=
  response.statusCode = .Ok ∨ response.statusCode = .PartialContent

/-- The client sends back what came with the file; it may leave out either header. -/
structure Revalidates (response : HttpResponse) (request : HttpRequest) : Prop where
  tag : getHeader request.headers (ascii "if-none-match") = [] ∨
    response.headers.lookup (ascii "ETag") =
      some (getHeader request.headers (ascii "if-none-match"))
  date : getHeader request.headers (ascii "if-modified-since") = [] ∨
    response.headers.lookup (ascii "Last-Modified") =
      some (getHeader request.headers (ascii "if-modified-since"))

/-! ## What comes with a file -/

/-- A response that sends a file names the version that it was found in. -/
def NamesVersion (env : Environment) (st : Stat) (response : HttpResponse) : Prop :=
  SendsFile response →
    response.headers.lookup (ascii "ETag") = some (generateEtag st) ∧
      response.headers.lookup (ascii "Last-Modified") = some (env.formatHttpDate st.mtime)

section

variable {env : Environment} {request : HttpRequest} {path : Bytes} {st : Stat} {s : OsState}

theorem namesVersion_of_status {response : HttpResponse}
    (h : response.statusCode ≠ .Ok ∧ response.statusCode ≠ .PartialContent) :
    NamesVersion env st response :=
  fun hsends => (hsends.elim h.1 h.2).elim

theorem fileResponse_lookup (code : StatusCode) :
    (fileResponse env code path st).headers.lookup (ascii "ETag") = some (generateEtag st) ∧
      (fileResponse env code path st).headers.lookup (ascii "Last-Modified") =
        some (env.formatHttpDate st.mtime) := by
  have hnames : ascii "Last-Modified" ≠ ascii "ETag" ∧
      ascii "ETag" ≠ ascii "Cache-Control" ∧
      ascii "Last-Modified" ≠ ascii "Cache-Control" := by decide
  simp [fileResponse, HttpResponse.setHeader, AList.lookup_insert_ne, hnames]

theorem serveOpenFile_namesVersion (fd : Fd) :
    Returns (NamesVersion env st) (serveOpenFile env path request st fd s) := by
  have hnames : ascii "ETag" ≠ ascii "Content-Length" ∧
      ascii "Last-Modified" ≠ ascii "Content-Length" ∧
      ascii "ETag" ≠ ascii "Content-Range" ∧
      ascii "Last-Modified" ≠ ascii "Content-Range" := by decide
  unfold serveOpenFile
  dsimp only
  split_ifs
  · rcases parseRange (getHeader request.headers (ascii "range")) st.size with
      e | _ | ⟨start, last⟩
    · exact returns_error
    · exact returns_ok.2 (namesVersion_of_status
        (by decide : StatusCode.RangeNotSatisfiable ≠ _ ∧ StatusCode.RangeNotSatisfiable ≠ _))
    · refine returns_ok.2 fun _ => ?_
      have hfile := @fileResponse_lookup env path st .PartialContent
      simpa [rangeResponse, HttpResponse.setHeader, AList.lookup_insert_ne, hnames] using hfile
  · refine returns_ok.2 fun _ => ?_
    have hfile := @fileResponse_lookup env path st .Ok
    simpa [wholeResponse, HttpResponse.setHeader, AList.lookup_insert_ne, hnames] using hfile

theorem serveStaticFile_namesVersion (hstat : env.fs.statPath path = some st) :
    Returns (NamesVersion env st) (serveStaticFile env path request s) := by
  unfold serveStaticFile
  rw [hstat]
  dsimp only
  split_ifs
  · exact returns_ok.2 (namesVersion_of_status
      (by decide : StatusCode.NotFound ≠ _ ∧ StatusCode.NotFound ≠ _))
  · exact returns_ok.2 (namesVersion_of_status
      (by decide : StatusCode.NotModified ≠ _ ∧ StatusCode.NotModified ≠ _))
  · exact returns_ok.2 (namesVersion_of_status
      (by decide : StatusCode.NotAcceptable ≠ _ ∧ StatusCode.NotAcceptable ≠ _))
  · rcases s.openFile env path with ⟨_ | fd, s'⟩
    · exact returns_ok.2 (namesVersion_of_status
        (by decide : StatusCode.InternalServerError ≠ _ ∧ StatusCode.InternalServerError ≠ _))
    · exact serveOpenFile_namesVersion fd

theorem withoutBody_namesVersion {call : Call HttpResponse}
    (h : Returns (NamesVersion env st) (call s)) :
    Returns (NamesVersion env st) (withoutBody request call s) := by
  unfold withoutBody
  cases hcall : call s with
  | mk result s' =>
      rw [hcall] at h
      cases result with
      | error e => exact returns_error
      | ok response =>
          have hresponse := returns_ok.1 h
          refine returns_ok.2 ?_
          unfold dropBody
          split_ifs
          · exact hresponse
          · exact hresponse

end

/-! ## What the client is told -/

section

variable {env : Environment} {request : HttpRequest} {response : HttpResponse} {st kept : Stat}

theorem generateEtag_eq_iff (hkept : kept.Wide) (hst : st.Wide) :
    generateEtag kept = generateEtag st ↔
      kept.ino = st.ino ∧ kept.size = st.size ∧ kept.mtime = st.mtime := by
  rw [← version_eq_iff hkept hst, generateEtag_eq_version hkept, generateEtag_eq_version hst,
    FileVersion.generateEtag_eq_text, FileVersion.generateEtag_eq_text]
  exact FileVersion.etagText_injective.eq_iff

theorem tag_revalidates (hlookup : response.headers.lookup (ascii "ETag") =
      some (generateEtag kept)) (h : Revalidates response request) (hkept : kept.Wide)
    (hst : st.Wide) :
    getHeader request.headers (ascii "if-none-match") = generateEtag st ↔
      getHeader request.headers (ascii "if-none-match") ≠ [] ∧
        kept.ino = st.ino ∧ kept.size = st.size ∧ kept.mtime = st.mtime := by
  rcases h.tag with habsent | hsent
  · rw [habsent]
    exact iff_of_false (generateEtag_ne_nil st).symm fun hne => hne.1 rfl
  · rw [← Option.some.inj (hlookup.symm.trans hsent), generateEtag_eq_iff hkept hst]
    exact (and_iff_right (generateEtag_ne_nil kept)).symm

theorem date_revalidates {first : Environment} (hfirst : first.HttpDates)
    (hdates : env.HttpDates) (hlookup : response.headers.lookup (ascii "Last-Modified") =
      some (first.formatHttpDate kept.mtime)) (h : Revalidates response request) :
    unmodifiedSince env request st = true ↔
      getHeader request.headers (ascii "if-modified-since") ≠ [] ∧
        HttpDate.Writable kept.mtime ∧ kept.mtime ≤ env.now ∧ st.mtime ≤ kept.mtime := by
  unfold unmodifiedSince parseHttpDate
  by_cases hempty : getHeader request.headers (ascii "if-modified-since") = []
  · simp [hempty]
  · have hsent := h.date.resolve_left hempty
    have hdate : getHeader request.headers (ascii "if-modified-since") =
        HttpDate.formatHttpDate kept.mtime := by
      rw [← hfirst.format, ← Option.some.inj (hlookup.symm.trans hsent)]
    rw [if_neg hempty, hdates.parse, hdate, HttpDate.parseHttpDate_formatHttpDate, ← hdate]
    by_cases hwritable : HttpDate.Writable kept.mtime
    · simp [hwritable, hempty]
    · simp [hwritable]

theorem notModified_revalidates {first : Environment} (hfirst : first.HttpDates)
    (hdates : env.HttpDates) (hnames : NamesVersion first kept response)
    (hsends : SendsFile response) (h : Revalidates response request) (hkept : kept.Wide)
    (hst : st.Wide) :
    notModified env request st = true ↔
      getHeader request.headers (ascii "if-none-match") ≠ [] ∧
          (kept.ino = st.ino ∧ kept.size = st.size ∧ kept.mtime = st.mtime) ∨
        getHeader request.headers (ascii "if-modified-since") ≠ [] ∧
          HttpDate.Writable kept.mtime ∧ kept.mtime ≤ env.now ∧ st.mtime ≤ kept.mtime := by
  obtain ⟨htag, hdate⟩ := hnames hsends
  rw [notModified_eq, Bool.or_eq_true, decide_eq_true_eq, tag_revalidates htag h hkept hst,
    date_revalidates hfirst hdates hdate h]

end

/--
A client that has got a file, whole or in part, and comes back with what it was told
about it hears that the file is the same exactly if it sends the tag and the inode,
the size and the time are the same, or it sends the date and the file, whatever it
holds, is not newer than that; a date that cannot be written or lies in the future of
the server does not count.
-/
theorem handle_revalidates (first env : Environment) (config config' : Config)
    (request request' : HttpRequest) (accepting accepting' : Bool) (addr addr' : Option Bytes)
    (s s' : OsState) {path path' : Bytes} {kept st : Stat} {response : HttpResponse}
    (hfirst : first.HttpDates) (hdates : env.HttpDates)
    (hserved : servedFile first config request = some path)
    (hkept : first.fs.statPath path = some kept) (hkeptWide : kept.Wide)
    (hresponse : (handle first config request accepting addr s).1 = .ok response)
    (hsends : SendsFile response) (hserved' : servedFile env config' request' = some path')
    (hst : env.fs.statPath path' = some st) (hregular : st.kind = .regular) (hstWide : st.Wide)
    (h : Revalidates response request') :
    AnswersWith .NotModified (handle env config' request' accepting' addr' s') ↔
      getHeader request'.headers (ascii "if-none-match") ≠ [] ∧
          (kept.ino = st.ino ∧ kept.size = st.size ∧ kept.mtime = st.mtime) ∨
        getHeader request'.headers (ascii "if-modified-since") ≠ [] ∧
          HttpDate.Writable kept.mtime ∧ kept.mtime ≤ env.now ∧ st.mtime ≤ kept.mtime := by
  rw [handle_servedFile hserved] at hresponse
  have hnames : NamesVersion first kept response :=
    withoutBody_namesVersion (serveStaticFile_namesVersion hkept) response hresponse
  rw [handle_servedFile hserved', withoutBody_answersWith, AnswersWith,
    serveStaticFile_notModified hst hregular,
    notModified_revalidates hfirst hdates hnames hsends h hkeptWide hstWide]

/-- The text is the only file, and it was written at the time that it is. -/
def datedSite (text : Bytes) : Environment :=
  { Environment.still (.flat [(ascii "a.txt", text)]) fun _ => .forkFailed with
    formatHttpDate := HttpDate.formatHttpDate
    parseHttpDate := HttpDate.parseHttpDate }

def textRequest : HttpRequest where
  uri := ascii "/a.txt"

def laterRequest : HttpRequest where
  uri := ascii "/a.txt"
  headers := (AList.singleton (ascii "if-none-match") (ascii "\"1-3-0\"")).insert
    (ascii "if-modified-since") (ascii "Thu, 01 Jan 1970 00:00:00 GMT")

/-- The file has grown within the second, and the client is told that it is the same. -/
theorem handle_revalidates_grown :
    AnswersWith .NotModified
      (handle (datedSite (ascii "longer")) textConfig laterRequest true none {}) := by
  have hserved : servedFile (datedSite (ascii "old")) textConfig textRequest =
        some (ascii "/a.txt") ∧
      servedFile (datedSite (ascii "longer")) textConfig laterRequest =
        some (ascii "/a.txt") := by decide +kernel
  have hstat : ∀ text ∈ [ascii "old", ascii "longer"],
      (datedSite text).fs.statPath (ascii "/a.txt") = some ((datedSite text).fs.stat 1) := by
    intro text _
    rfl
  have hwide : ∀ text ∈ [ascii "old", ascii "longer"], ((datedSite text).fs.stat 1).Wide := by
    intro text htext
    have hnumbers : ∀ text ∈ [ascii "old", ascii "longer"],
        ((datedSite text).fs.stat 1).ino < 2 ^ 64 ∧ ((datedSite text).fs.stat 1).size < 2 ^ 63 ∧
          -2 ^ 63 ≤ ((datedSite text).fs.stat 1).mtime ∧
          ((datedSite text).fs.stat 1).mtime < 2 ^ 63 := by decide +kernel
    obtain ⟨hino, hsize, hmtime⟩ := hnumbers text htext
    exact ⟨hino, hsize, hmtime⟩
  obtain ⟨response, hresponse, hstatus, htag, hdate⟩ : ∃ response,
      (handle (datedSite (ascii "old")) textConfig textRequest true none {}).1 = .ok response ∧
        response.statusCode = .Ok ∧
        response.headers.lookup (ascii "ETag") =
          some (getHeader laterRequest.headers (ascii "if-none-match")) ∧
        response.headers.lookup (ascii "Last-Modified") =
          some (getHeader laterRequest.headers (ascii "if-modified-since")) := by
    refine ⟨_, rfl, ?_⟩
    decide +kernel
  refine (handle_revalidates (datedSite (ascii "old")) (datedSite (ascii "longer")) textConfig
    textConfig textRequest laterRequest true true none none {} {} ⟨rfl, rfl⟩ ⟨rfl, rfl⟩ hserved.1
    (hstat _ (by simp)) (hwide _ (by simp)) hresponse (.inl hstatus) hserved.2
    (hstat _ (by simp)) rfl (hwide _ (by simp)) ⟨.inr htag, .inr hdate⟩).2 (.inr ?_)
  decide +kernel

end CppHttpd
