import CppHttpd.Http.Core.RequestParser
import CppHttpd.Http.Handlers.Route

/-!
# Exceptions and descriptors

Every call of the standard library that could throw has its precondition proved
where it is made, except for the numbers of a `Range` header.  What
`std::stoull` throws there leaves the handler, with the file still open.  A
program can keep the handler from returning as well.
-/

namespace CppHttpd

open CppHttpd.Foundation

/-- A response is returned, and nothing is left open but the file it hands over. -/
def Contained (s : OsState) (r : Except NoReturn HttpResponse × OsState) : Prop :=
  ∃ response, r.1 = .ok response ∧ r.2.openFds = response.bodyFd.toList ++ s.openFds

/-! ## Ranges that throw -/

/-- A number of the range is there, and cannot be read. -/
def UnreadableRange (header : Bytes) : Prop :=
  ∃ start last, header = ascii "bytes=" ++ (start ++ DASH :: last) ∧ DASH ∉ start ∧
    ∃ number ∈ [start, last], number ≠ [] ∧ ∃ e, stoull number = .error e

theorem unreadableRange_iff {start : Bytes} (h : DASH ∉ start) (last : Bytes) :
    UnreadableRange (ascii "bytes=" ++ (start ++ DASH :: last)) ↔
      ∃ number ∈ [start, last], number ≠ [] ∧ ∃ e, stoull number = .error e := by
  constructor
  · rintro ⟨start', last', heq, h', hnumber⟩
    have hspec := List.append_cancel_left heq
    have hlength : start.length = start'.length := by
      have hfind := find_append_cons h last
      rw [hspec, find_append_cons h'] at hfind
      exact (Option.some.inj hfind).symm
    obtain ⟨rfl, hlast⟩ := List.append_inj hspec hlength
    obtain ⟨-, rfl⟩ := List.cons.inj hlast
    exact hnumber
  · exact fun hnumber => ⟨start, last, rfl, h, hnumber⟩

theorem ite_ok_ne {α ε : Type*} (p : Prop) [Decidable p] (a b : α) (e : ε) :
    (if p then Except.ok a else Except.ok b) ≠ Except.error e := by
  split_ifs <;> simp

/-- `parse_range` throws whatever the size of the file is. -/
theorem parseRange_error_iff (header : Bytes) (fileSize : Nat) :
    (∃ e, parseRange header fileSize = .error e) ↔ UnreadableRange header := by
  by_cases hbytes : compareEq header 0 6 (ascii "bytes=") (zero_le_length _) = true
  · obtain ⟨spec, rfl⟩ : ∃ spec, header = ascii "bytes=" ++ spec := by
      have htake : header.take 6 = ascii "bytes=" := by simpa [compareEq] using hbytes
      exact ⟨header.drop 6, by rw [← htake, List.take_append_drop]⟩
    have hspec : (ascii "bytes=" ++ spec).drop 6 = spec := rfl
    rw [parseRange, dif_pos hbytes]
    simp only [substrFrom_eq, hspec, substr_eq, List.drop_zero]
    split
    · rename_i hd
      rw [hspec] at hd
      have hdash : DASH ∉ spec := by simpa using find_eq_none_iff.1 hd
      apply iff_of_false (by simp)
      rintro ⟨start, last, heq, -⟩
      rw [List.append_cancel_left heq] at hdash
      simp at hdash
    · rename_i dash hd
      rw [hspec] at hd
      obtain ⟨hsplit, hstart⟩ := find_split hd
      have hiff := unreadableRange_iff hstart (spec.drop (dash + 1))
      rw [← hsplit] at hiff
      rw [hiff]
      generalize spec.take dash = start
      generalize spec.drop (dash + 1) = last
      by_cases hs : start = []
      · subst hs
        by_cases hl : last = []
        · simp [hl]
        · cases hlast : stoull last with
          | error e => simp [hl, hlast, bind, Except.bind]
          | ok suffix => simp [hl, hlast, bind, Except.bind, ite_ok_ne]
      · cases hfirst : stoull start with
        | error e => simp [hs, hfirst, bind, Except.bind]
        | ok first =>
            by_cases hl : last = []
            · simp [hs, hl, hfirst, bind, Except.bind, ite_ok_ne]
            · cases hlast : stoull last with
              | error e => simp [hs, hl, hfirst, hlast, bind, Except.bind]
              | ok final => simp [hs, hl, hfirst, hlast, bind, Except.bind, ite_ok_ne]
  · apply iff_of_false
    · rw [parseRange, dif_neg hbytes]
      simp
    · rintro ⟨start, last, rfl, -⟩
      exact hbytes rfl

/-! ## Which requests reach the range -/

def servedFile (env : Environment) (config : Config) (request : HttpRequest) : Option Bytes :=
  match route env config request with
  | .file path => some path
  | .directory vhost path => indexFile env.fs path request vhost.documentRoot
  | _ => none

/-- The file is opened: the client does not have it, accepts its type, and it can be opened. -/
def OpensFile (env : Environment) (request : HttpRequest) (path : Bytes) (s : OsState) : Prop :=
  ∃ st, env.fs.statPath path = some st ∧ st.kind = .regular ∧
    notModified env request st = false ∧
    checkAccept request (contentTypeFromSuffix path) = true ∧
    (s.openFile env path).1.isSome = true

/-- The file is opened and the `Range` header holds a number that cannot be read. -/
def FileThrows (env : Environment) (request : HttpRequest) (path : Bytes) (s : OsState) : Prop :=
  OpensFile env request path s ∧ UnreadableRange (getHeader request.headers (ascii "range"))

def RangeThrows (env : Environment) (config : Config) (request : HttpRequest) (s : OsState) :
    Prop :=
  ∃ path, servedFile env config request = some path ∧ FileThrows env request path s

/-! ## Static files -/

theorem openFile_openFds {env : Environment} {path : Bytes} {s s' : OsState} {fd : Fd}
    (h : s.openFile env path = (some fd, s')) : s'.openFds = fd :: s.openFds := by
  unfold OsState.openFile at h
  split at h
  · simp at h
  · split_ifs at h
    · split at h
      · simp at h
      · obtain ⟨hfd, rfl⟩ := Prod.mk.inj h
        cases hfd
        rfl
    · simp at h

theorem openFile_none {env : Environment} {path : Bytes} {s s' : OsState}
    (h : s.openFile env path = (none, s')) : s' = s := by
  unfold OsState.openFile at h
  split at h
  · exact (Prod.mk.inj h).2.symm
  · split_ifs at h
    · split at h
      · exact (Prod.mk.inj h).2.symm
      · simp at h
    · exact (Prod.mk.inj h).2.symm

inductive FileEnd (env : Environment) (request : HttpRequest) (path : Bytes) (s : OsState)
    (r : Except NoReturn HttpResponse × OsState) : Prop
  | throws {e : StdException} (hresult : r.1 = .error (.throws e))
      (hthrows : FileThrows env request path s)
  | responds (hcontained : Contained s r) (hreads : ¬ FileThrows env request path s)

theorem serveOpenFile_end {env : Environment} {request : HttpRequest} {path : Bytes}
    {s s' : OsState} {st : Stat} {fd : Fd} (hopens : OpensFile env request path s)
    (hfds : s'.openFds = fd :: s.openFds) :
    FileEnd env request path s (serveOpenFile env path request st fd s') := by
  have hthrows : FileThrows env request path s ↔
      UnreadableRange (getHeader request.headers (ascii "range")) := and_iff_right hopens
  unfold serveOpenFile
  by_cases hrange : getHeader request.headers (ascii "range") = []
  · refine .responds ⟨wholeResponse env path st fd, by simp [hrange], ?_⟩ ?_
    · simpa [hrange, wholeResponse] using hfds
    · rw [hthrows, hrange]
      rintro ⟨start, last, heq, -⟩
      cases heq
  · rw [← parseRange_error_iff _ st.size] at hthrows
    simp only [ne_eq, hrange, not_false_eq_true, if_true]
    cases hparse : parseRange (getHeader request.headers (ascii "range")) st.size with
    | error e => exact .throws rfl (hthrows.2 ⟨e, hparse⟩)
    | ok range =>
        have hreads : ¬ FileThrows env request path s := by
          rw [hthrows, hparse]
          simp
        cases range with
        | none =>
            refine .responds ⟨rangeNotSatisfiable st, rfl, ?_⟩ hreads
            simp [OsState.closeFile, hfds, rangeNotSatisfiable, HttpResponse.setHeader,
              HttpResponse.ofStatus]
        | some bounds =>
            refine .responds ⟨rangeResponse env path st fd bounds.1 bounds.2, rfl, ?_⟩ hreads
            simpa [rangeResponse] using hfds

theorem serveStaticFile_end (env : Environment) (path : Bytes) (request : HttpRequest)
    (s : OsState) :
    FileEnd env request path s (serveStaticFile env path request s) := by
  unfold serveStaticFile
  cases hstat : env.fs.statPath path with
  | none =>
      refine .responds ⟨_, rfl, rfl⟩ ?_
      rintro ⟨⟨st, hst, -⟩, -⟩
      simp [hstat] at hst
  | some st =>
      have hopens : OpensFile env request path s ↔ st.kind = .regular ∧
          notModified env request st = false ∧
          checkAccept request (contentTypeFromSuffix path) = true ∧
          (s.openFile env path).1.isSome = true := by
        simp [OpensFile, hstat]
      dsimp only
      split_ifs with hkind hmodified haccept
      · exact .responds ⟨_, rfl, rfl⟩ fun hthrows => hkind (hopens.1 hthrows.1).1
      · refine .responds ⟨_, rfl, rfl⟩ fun hthrows => ?_
        have hfalse := (hopens.1 hthrows.1).2.1
        simp [hmodified] at hfalse
      · refine .responds ⟨_, rfl, rfl⟩ fun hthrows => ?_
        have htrue := (hopens.1 hthrows.1).2.2.1
        simp [htrue] at haccept
      · cases hopen : s.openFile env path with
        | mk fd s' =>
            cases fd with
            | none =>
                refine .responds ⟨_, rfl, by rw [openFile_none hopen]; rfl⟩ fun hthrows => ?_
                have hsome := (hopens.1 hthrows.1).2.2.2
                simp [hopen] at hsome
            | some fd =>
                refine serveOpenFile_end (hopens.2 ⟨?_, ?_, ?_, by simp [hopen]⟩)
                  (openFile_openFds hopen)
                · simpa using hkind
                · simpa using hmodified
                · simpa using haccept

/-! ## The whole handler -/

theorem withoutBody_error {request : HttpRequest} {call : Call HttpResponse} {s : OsState}
    {e : NoReturn} (h : (call s).1 = .error e) :
    (withoutBody request call s).1 = .error e := by
  unfold withoutBody
  revert h
  cases call s with
  | mk result s' =>
      rintro rfl
      rfl

theorem Contained.withoutBody {request : HttpRequest} {call : Call HttpResponse} {s : OsState}
    (h : Contained s (call s)) : Contained s (withoutBody request call s) := by
  unfold CppHttpd.withoutBody
  revert h
  cases call s with
  | mk result s' =>
      rintro ⟨response, rfl, hfds⟩
      refine ⟨_, rfl, ?_⟩
      dsimp only at hfds ⊢
      unfold dropBody
      split_ifs
      · cases hfd : response.bodyFd with
        | none => simpa [hfd] using hfds
        | some fd => simp [hfds, hfd, OsState.closeFile]
      · exact hfds

theorem FileEnd.withoutBody {env : Environment} {request : HttpRequest} {path : Bytes}
    {s : OsState} {call : Call HttpResponse} (h : FileEnd env request path s (call s)) :
    FileEnd env request path s (withoutBody request call s) := by
  cases h with
  | throws hresult hthrows => exact .throws (withoutBody_error hresult) hthrows
  | responds hcontained hreads => exact .responds hcontained.withoutBody hreads

theorem FileEnd.contained_iff {env : Environment} {request : HttpRequest} {path : Bytes}
    {s : OsState} {r : Except NoReturn HttpResponse × OsState}
    (h : FileEnd env request path s r) : Contained s r ↔ ¬ FileThrows env request path s := by
  cases h with
  | throws hresult hthrows =>
      refine iff_of_false ?_ (not_not_intro hthrows)
      rintro ⟨response, hok, -⟩
      rw [hresult] at hok
      cases hok
  | responds hcontained hreads => exact iff_of_true hcontained hreads

theorem serveDirectoryIndex_file {env : Environment} {dirPath path documentRoot : Bytes}
    {request : HttpRequest} (h : indexFile env.fs dirPath request documentRoot = some path)
    (s : OsState) :
    serveDirectoryIndex env dirPath request documentRoot s =
      serveStaticFile env path request s := by
  rw [serveDirectoryIndex, h]

theorem buildListing_openFds (env : Environment) (uriPath dirPath : Bytes) (s : OsState) :
    (buildListing env uriPath dirPath s).2.openFds = s.openFds := by
  unfold buildListing
  split
  · rfl
  · split_ifs <;> rfl

theorem serveDirectoryIndex_listing {env : Environment} {dirPath documentRoot : Bytes}
    {request : HttpRequest} (h : indexFile env.fs dirPath request documentRoot = none)
    (s : OsState) : Contained s (serveDirectoryIndex env dirPath request documentRoot s) := by
  rw [serveDirectoryIndex, h]
  dsimp only
  split_ifs
  · exact ⟨_, rfl, buildListing_openFds _ _ _ _⟩
  · exact ⟨_, rfl, buildListing_openFds _ _ _ _⟩

theorem runCgi_openFds (env : Environment) (config : Config) (path : Bytes)
    (request : HttpRequest) (vhost : Option VirtualHost) (clientRemoteAddr : Option Bytes)
    (s : OsState) :
    (runCgi env config path request vhost clientRemoteAddr s).2.openFds = s.openFds := by
  unfold runCgi
  cases env.fs.reach path with
  | none => rfl
  | some i =>
      dsimp only
      split_ifs <;> rfl

/-- The program that the request is for, if it is for one, lets `run_cgi` return. -/
def CgiReturns (env : Environment) (config : Config) (request : HttpRequest)
    (clientRemoteAddr : Option Bytes) : Prop :=
  ∀ vhost path, route env config request = .cgi vhost path →
    ∃ outcome, env.cgi (cgiCall config path request (some vhost) clientRemoteAddr) =
      .returned outcome

/-- The ways in which `handle` ends, or does not. -/
inductive HandleEnd (env : Environment) (config : Config) (request : HttpRequest)
    (clientRemoteAddr : Option Bytes) (s : OsState)
    (r : Except NoReturn HttpResponse × OsState) : Prop
  | responds (hcontained : Contained s r) (hreads : ¬ RangeThrows env config request s)
      (hreturns : CgiReturns env config request clientRemoteAddr)
  | throws {e : StdException} (hresult : r.1 = .error (.throws e))
      (hthrows : RangeThrows env config request s)
  | stops {e : NoReturn} (hresult : r.1 = .error e) (hopen : r.2.openFds = s.openFds)
      (hstops : ¬ CgiReturns env config request clientRemoteAddr)

section

variable {env : Environment} {config : Config} {request : HttpRequest}
  {clientRemoteAddr : Option Bytes} {s : OsState}

theorem not_rangeThrows_of_cgi {vhost : VirtualHost} {path : Bytes}
    (hroute : route env config request = .cgi vhost path) :
    ¬ RangeThrows env config request s := by
  rintro ⟨file, hserved, -⟩
  rw [servedFile, hroute] at hserved
  cases hserved

theorem cgiReturns_of_other (h : ∀ vhost path, route env config request ≠ .cgi vhost path) :
    CgiReturns env config request clientRemoteAddr :=
  fun vhost path hroute => absurd hroute (h vhost path)

/-- A response that needs neither a file nor a program. -/
theorem handleEnd_of_plain {response : HttpResponse} (hfd : response.bodyFd = none)
    (hserved : servedFile env config request = none)
    (hother : ∀ vhost path, route env config request ≠ .cgi vhost path) :
    HandleEnd env config request clientRemoteAddr s (.ok response, s) := by
  refine .responds ⟨response, rfl, by rw [hfd]; rfl⟩ ?_ (cgiReturns_of_other hother)
  rintro ⟨path, hpath, -⟩
  rw [hserved] at hpath
  cases hpath

theorem FileEnd.handleEnd {path : Bytes} {r : Except NoReturn HttpResponse × OsState}
    (h : FileEnd env request path s r) (hserved : servedFile env config request = some path)
    (hother : ∀ vhost path, route env config request ≠ .cgi vhost path) :
    HandleEnd env config request clientRemoteAddr s r := by
  cases h with
  | throws hresult hthrows => exact .throws hresult ⟨path, hserved, hthrows⟩
  | responds hcontained hreads =>
      refine .responds hcontained ?_ (cgiReturns_of_other hother)
      rintro ⟨path', hserved', hthrows⟩
      obtain rfl := Option.some.inj (hserved.symm.trans hserved')
      exact hreads hthrows

theorem runCgi_end {vhost : VirtualHost} {path : Bytes}
    (hroute : route env config request = .cgi vhost path) :
    HandleEnd env config request clientRemoteAddr s
      (runCgi env config path request (some vhost) clientRemoteAddr s) := by
  have hopen := runCgi_openFds env config path request (some vhost) clientRemoteAddr s
  have hresult : (runCgi env config path request (some vhost) clientRemoteAddr s).1 =
      (env.cgi (cgiCall config path request (some vhost) clientRemoteAddr)).result
        env.uninitialised := rfl
  have hstops (hcall : ∀ outcome,
      env.cgi (cgiCall config path request (some vhost) clientRemoteAddr) ≠ .returned outcome) :
      ¬ CgiReturns env config request clientRemoteAddr := by
    intro hreturns
    obtain ⟨outcome, houtcome⟩ := hreturns vhost path hroute
    exact hcall outcome houtcome
  cases hcall : env.cgi (cgiCall config path request (some vhost) clientRemoteAddr) with
  | returned outcome =>
      rw [hcall] at hresult
      refine .responds ⟨_, hresult, ?_⟩ (not_rangeThrows_of_cgi hroute) ?_
      · rw [cgiOutcomeResponse_bodyFd]
        exact hopen
      · intro vhost' path' hroute'
        rw [hroute] at hroute'
        cases hroute'
        exact ⟨outcome, hcall⟩
  | terminated =>
      rw [hcall] at hresult
      exact .stops hresult hopen (hstops (by simp [hcall]))
  | waiting =>
      rw [hcall] at hresult
      exact .stops hresult hopen (hstops (by simp [hcall]))

theorem handle_end (env : Environment) (config : Config) (request : HttpRequest)
    (acceptingNewConnections : Bool) (clientRemoteAddr : Option Bytes) (s : OsState) :
    HandleEnd env config request clientRemoteAddr s
      (handle env config request acceptingNewConnections clientRemoteAddr s) := by
  rw [handle_eq]
  cases hroute : route env config request with
  | cgi vhost path => exact runCgi_end hroute
  | file path =>
      exact (serveStaticFile_end env path request s).withoutBody.handleEnd
        (by rw [servedFile, hroute]) (by simp [hroute])
  | directory vhost path =>
      cases hindex : indexFile env.fs path request vhost.documentRoot with
      | none =>
          refine .responds (serveDirectoryIndex_listing hindex s).withoutBody ?_
            (cgiReturns_of_other (by simp [hroute]))
          rintro ⟨file, hserved, -⟩
          simp [servedFile, hroute, hindex] at hserved
      | some file =>
          have hend := serveStaticFile_end env file request s
          rw [← serveDirectoryIndex_file hindex] at hend
          exact hend.withoutBody.handleEnd (by rw [servedFile, hroute]; exact hindex)
            (by simp [hroute])
  | load =>
      cases acceptingNewConnections <;>
        exact handleEnd_of_plain rfl (by rw [servedFile, hroute]) (by simp [hroute])
  | _ => exact handleEnd_of_plain rfl (by rw [servedFile, hroute]) (by simp [hroute])

theorem HandleEnd.contained {r : Except NoReturn HttpResponse × OsState}
    (h : HandleEnd env config request clientRemoteAddr s r) {response : HttpResponse}
    (hresult : r.1 = .ok response) : Contained s r := by
  cases h with
  | responds hcontained => exact hcontained
  | throws hthrows =>
      rw [hresult] at hthrows
      cases hthrows
  | stops herror =>
      rw [hresult] at herror
      cases herror

/-- Nothing is left open that was not, unless the handler has thrown. -/
theorem HandleEnd.openFds {r : Except NoReturn HttpResponse × OsState}
    (h : HandleEnd env config request clientRemoteAddr s r) {e : NoReturn}
    (hresult : r.1 = .error e) (hreturned : ∀ x, e ≠ .throws x) : r.2.openFds = s.openFds := by
  cases h with
  | responds hcontained =>
      obtain ⟨response, hok, -⟩ := hcontained
      rw [hresult] at hok
      cases hok
  | throws hthrows =>
      rw [hresult] at hthrows
      cases hthrows
      exact absurd rfl (hreturned _)
  | stops _ hopen => exact hopen

end

end CppHttpd
