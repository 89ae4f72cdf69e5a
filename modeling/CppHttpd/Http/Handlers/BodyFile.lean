import CppHttpd.Http.Handlers.Containment
import CppHttpd.Http.Handlers.Framing

/-!
# The file of a response

Whatever a request is, a file that is handed over as the body of its response was
opened for it, and the part of it that is to be sent lies within the file.
-/

namespace CppHttpd

open CppHttpd.Foundation

/-- The descriptor was not in use before, and the body is a part of the file. -/
structure OwnsFile (env : Environment) (s : OsState) (response : HttpResponse) (fd : Fd) :
    Prop where
  fresh : fd ∉ s.openFds
  offset : 0 ≤ response.bodyFdOffset
  size : 0 ≤ response.bodyFdSize
  within : ∃ path st, env.fs.statPath path = some st ∧
    response.bodyFdOffset + response.bodyFdSize ≤ st.size

def OwnsBody (env : Environment) (s : OsState) (response : HttpResponse) : Prop :=
  ∀ fd, response.bodyFd = some fd → OwnsFile env s response fd

section

variable {env : Environment} {s : OsState}

theorem ownsBody_of_none {response : HttpResponse} (h : response.bodyFd = none) :
    OwnsBody env s response := by
  intro fd hfd
  rw [h] at hfd
  cases hfd

theorem exists_of_bind_eq_ok {ε α β : Type} {x : Except ε α} {f : α → Except ε β} {b : β}
    (h : x >>= f = .ok b) : ∃ a, x = .ok a ∧ f a = .ok b := by
  cases x with
  | error e => cases h
  | ok a => exact ⟨a, rfl, h⟩

theorem exists_of_map_eq_ok {ε α β : Type} {x : Except ε α} {f : α → β} {b : β}
    (h : x.map f = .ok b) : ∃ a, x = .ok a ∧ f a = b := by
  cases x with
  | error e => cases h
  | ok a => exact ⟨a, rfl, Except.ok.inj h⟩

theorem parseRange_within {header : Bytes} {fileSize start last : Nat}
    (h : parseRange header fileSize = .ok (some (start, last))) :
    start ≤ last ∧ last < fileSize := by
  have hchecked {a b : Nat}
      (hb : (if a > b ∨ b ≥ fileSize then .ok none else .ok (some (a, b))) =
        (.ok (some (start, last)) : Except StdException _)) : start ≤ last ∧ last < fileSize := by
    split_ifs at hb with hout
    · cases hb
    · cases hb
      omega
  unfold parseRange at h
  split at h
  case isFalse => cases h
  case isTrue =>
    dsimp only at h
    split at h
    case h_1 => cases h
    case h_2 =>
      split at h
      · cases h
      · split at h
        · obtain ⟨suffix, -, hsuffix⟩ := exists_of_bind_eq_ok h
          exact hchecked hsuffix
        · obtain ⟨first, -, hfirst⟩ := exists_of_bind_eq_ok h
          split at hfirst
          · obtain ⟨final, -, hfinal⟩ := exists_of_bind_eq_ok hfirst
            exact hchecked hfinal
          · exact hchecked hfirst

theorem openFile_fresh {path : Bytes} {s' : OsState} {fd : Fd}
    (h : s.openFile env path = (some fd, s')) : fd ∉ s.openFds := by
  unfold OsState.openFile at h
  split at h
  · simp at h
  · split_ifs at h
    · split at h
      case h_1 => simp at h
      case h_2 newFd hnew =>
        obtain ⟨hfd, -⟩ := Prod.mk.inj h
        cases hfd
        exact env.newFd_fresh hnew
    · simp at h

theorem serveOpenFile_ownsBody {path : Bytes} {request : HttpRequest} {st : Stat} {fd : Fd}
    (hstat : env.fs.statPath path = some st) (hfresh : fd ∉ s.openFds) (s' : OsState) :
    Returns (OwnsBody env s) (serveOpenFile env path request st fd s') := by
  unfold serveOpenFile
  dsimp only
  split_ifs
  · cases hparse : parseRange (getHeader request.headers (ascii "range")) st.size with
    | error e => exact returns_error
    | ok range =>
        cases range with
        | none => exact returns_ok.2 (ownsBody_of_none rfl)
        | some bounds =>
            obtain ⟨hle, hlt⟩ := parseRange_within hparse
            refine returns_ok.2 fun fd' hfd => ?_
            cases hfd
            refine ⟨hfresh, Int.natCast_nonneg _, Int.natCast_nonneg _, path, st, hstat, ?_⟩
            simp only [rangeResponse]
            omega
  · refine returns_ok.2 fun fd' hfd => ?_
    cases hfd
    exact ⟨hfresh, Int.le_refl 0, Int.natCast_nonneg _, path, st, hstat,
      by simp [wholeResponse]⟩

theorem serveStaticFile_ownsBody (path : Bytes) (request : HttpRequest) :
    Returns (OwnsBody env s) (serveStaticFile env path request s) := by
  unfold serveStaticFile
  cases hstat : env.fs.statPath path with
  | none => exact returns_ok.2 (ownsBody_of_none rfl)
  | some st =>
      dsimp only
      split_ifs
      · exact returns_ok.2 (ownsBody_of_none rfl)
      · exact returns_ok.2 (ownsBody_of_none rfl)
      · exact returns_ok.2 (ownsBody_of_none rfl)
      · cases hopen : s.openFile env path with
        | mk fd s' =>
            cases fd with
            | none => exact returns_ok.2 (ownsBody_of_none rfl)
            | some fd => exact serveOpenFile_ownsBody hstat (openFile_fresh hopen) s'

theorem serveDirectoryIndex_ownsBody (path documentRoot : Bytes) (request : HttpRequest) :
    Returns (OwnsBody env s) (serveDirectoryIndex env path request documentRoot s) := by
  cases hindex : indexFile env.fs path request documentRoot with
  | some file =>
      rw [serveDirectoryIndex_file hindex]
      exact serveStaticFile_ownsBody file request
  | none =>
      rw [serveDirectoryIndex, hindex]
      dsimp only
      split_ifs <;> exact returns_ok.2 (ownsBody_of_none rfl)

theorem withoutBody_ownsBody {request : HttpRequest} {call : Call HttpResponse}
    (h : Returns (OwnsBody env s) (call s)) :
    Returns (OwnsBody env s) (withoutBody request call s) := by
  unfold withoutBody
  cases hcall : call s with
  | mk result s' =>
      cases result with
      | error e => exact returns_error
      | ok response =>
          have howns : OwnsBody env s response := h response (by rw [hcall])
          refine returns_ok.2 ?_
          unfold dropBody
          split_ifs
          · exact ownsBody_of_none rfl
          · exact howns

theorem handle_ownsBody (env : Environment) (config : Config) (request : HttpRequest)
    (acceptingNewConnections : Bool) (clientRemoteAddr : Option Bytes) (s : OsState) :
    Returns (OwnsBody env s)
      (handle env config request acceptingNewConnections clientRemoteAddr s) := by
  rw [handle_eq]
  cases route env config request with
  | load =>
      refine returns_ok.2 (ownsBody_of_none ?_)
      cases acceptingNewConnections <;> rfl
  | cgi vhost path => exact runCgi_returns_iff.2 fun _ _ => ownsBody_of_none (cgiOutcomeResponse_bodyFd _ _)
  | file path => exact withoutBody_ownsBody (serveStaticFile_ownsBody path request)
  | directory vhost path =>
      exact withoutBody_ownsBody (serveDirectoryIndex_ownsBody path vhost.documentRoot request)
  | _ => exact returns_ok.2 (ownsBody_of_none rfl)

end

end CppHttpd
