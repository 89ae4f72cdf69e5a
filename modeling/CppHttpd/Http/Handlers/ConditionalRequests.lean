import CppHttpd.Http.Core.ResponseDecoder
import CppHttpd.Http.Handlers.StaticFileHandler

/-!
# Conditional requests

If-None-Match names the versions of a file that the client has, and where it is
given the date in If-Modified-Since must not be looked at.  `serve_static_file`
knows one form of the first header only, and goes on to the second whenever the
first does not match.
-/

namespace CppHttpd

open CppHttpd.Foundation

/-! ## The precedence of the validators -/

def parseHttpDate (env : Environment) (value : Bytes) : Option Int :=
  if value = [] then none else env.parseHttpDate value

/-- The date is not in the future, and the file is not newer. -/
def unmodifiedSince (env : Environment) (request : HttpRequest) (st : Stat) : Bool :=
  match parseHttpDate env (getHeader request.headers (ascii "if-modified-since")) with
  | none => false
  | some date => date ≤ env.now ∧ st.mtime ≤ date

/-- The tag in an element of a list, be it strong or weak. -/
def entityTag (element : Bytes) : Bytes :=
  let tag := trim element (ascii " \t")
  if tag.take 2 = ascii "W/" then tag.drop 2 else tag

def matchesEtag (value etag : Bytes) : Bool :=
  value = ascii "*" || (value.splitOn COMMA).any (entityTag · = etag)

/-- The second validator counts only where the first is absent. -/
def validatorHolds (env : Environment) (request : HttpRequest) (st : Stat) : Bool :=
  match request.headers.lookup (ascii "if-none-match") with
  | some value => matchesEtag value (generateEtag st)
  | none => unmodifiedSince env request st

/-- No tag matches, but the date is looked at all the same. -/
def StaleDate (env : Environment) (request : HttpRequest) (st : Stat) : Prop :=
  ∃ value, request.headers.lookup (ascii "if-none-match") = some value ∧
    matchesEtag value (generateEtag st) = false ∧ unmodifiedSince env request st = true

/-- The header matches without being the tag itself, and no date helps. -/
def OverlookedMatch (env : Environment) (request : HttpRequest) (st : Stat) : Prop :=
  ∃ value, request.headers.lookup (ascii "if-none-match") = some value ∧
    value ≠ generateEtag st ∧ matchesEtag value (generateEtag st) = true ∧
    unmodifiedSince env request st = false

section

variable {env : Environment} {request : HttpRequest} {st : Stat}

/-! ## The tag of a file -/

theorem generateEtag_ne_nil (st : Stat) : generateEtag st ≠ [] := by
  simp [generateEtag, ascii]

theorem comma_notMem_generateEtag (st : Stat) : COMMA ∉ generateEtag st := by
  have hhex := not_mem_toHex (c := COMMA) (by decide)
  have hquote : COMMA ∉ ascii "\"" := by decide
  have hdash : COMMA ∉ ascii "-" := by decide
  simp only [generateEtag, List.mem_append, not_or]
  exact ⟨⟨⟨⟨⟨⟨hquote, hhex _⟩, hdash⟩, hhex _⟩, hdash⟩, hhex _⟩, hquote⟩

theorem entityTag_generateEtag (st : Stat) : entityTag (generateEtag st) = generateEtag st := by
  have htrim : trim (generateEtag st) (ascii " \t") = generateEtag st := by
    apply trim_eq_self
    · rintro c ⟨⟩
      rfl
    · intro c hc
      have hlast : (generateEtag st).getLast? = some (byteOf '"') := List.getLast?_concat
      obtain rfl := Option.some.inj (hlast.symm.trans hc)
      rfl
  unfold entityTag
  rw [htrim]
  exact if_neg fun hweak => by cases congrArg List.head? hweak

theorem matchesEtag_generateEtag (st : Stat) :
    matchesEtag (generateEtag st) (generateEtag st) = true := by
  have hsplit : (generateEtag st).splitOn COMMA = [generateEtag st] := by
    refine List.splitOnP_eq_singleton fun c hc => ?_
    exact beq_false_of_ne fun heq => comma_notMem_generateEtag st (heq ▸ hc)
  simp [matchesEtag, hsplit, entityTag_generateEtag]

/-! ## What the code looks at -/

theorem notModified_eq :
    notModified env request st =
      (decide (getHeader request.headers (ascii "if-none-match") = generateEtag st) ||
        unmodifiedSince env request st) := by
  have htag : (getHeader request.headers (ascii "if-none-match") ≠ [] &&
      getHeader request.headers (ascii "if-none-match") = generateEtag st) =
        decide (getHeader request.headers (ascii "if-none-match") = generateEtag st) := by
    by_cases heq : getHeader request.headers (ascii "if-none-match") = generateEtag st
    · simp [heq, generateEtag_ne_nil]
    · simp [heq]
  unfold notModified unmodifiedSince parseHttpDate
  dsimp only
  rw [htag]
  by_cases hdate : getHeader request.headers (ascii "if-modified-since") = []
  · simp [hdate]
  · simp only [hdate, ne_eq, not_false_eq_true, decide_true, Bool.true_and, if_false]
    cases env.parseHttpDate _ <;> simp

theorem notModified_iff_validatorHolds :
    notModified env request st = validatorHolds env request st ↔
      ¬ StaleDate env request st ∧ ¬ OverlookedMatch env request st := by
  rw [notModified_eq, validatorHolds, getHeader]
  cases hlookup : request.headers.lookup (ascii "if-none-match") with
  | none =>
      refine iff_of_true ?_ ⟨?_, ?_⟩
      · simp [(generateEtag_ne_nil st).symm]
      · rintro ⟨_, hvalue, -⟩
        cases hlookup.symm.trans hvalue
      · rintro ⟨_, hvalue, -⟩
        cases hlookup.symm.trans hvalue
  | some value =>
      have hstale : StaleDate env request st ↔
          matchesEtag value (generateEtag st) = false ∧ unmodifiedSince env request st = true := by
        simp [StaleDate, hlookup]
      have hoverlooked : OverlookedMatch env request st ↔
          value ≠ generateEtag st ∧ matchesEtag value (generateEtag st) = true ∧
            unmodifiedSince env request st = false := by
        simp [OverlookedMatch, hlookup]
      rw [hstale, hoverlooked]
      by_cases htag : value = generateEtag st
      · simp [htag, matchesEtag_generateEtag]
      · cases hmatch : matchesEtag value (generateEtag st) <;>
          cases hdate : unmodifiedSince env request st <;> simp [htag, hmatch]

theorem serveStaticFile_notModified {path : Bytes} {s : OsState}
    (hstat : env.fs.statPath path = some st) (hregular : st.kind = .regular) :
    (∃ response, (serveStaticFile env path request s).1 = .ok response ∧
        response.statusCode = .NotModified) ↔ notModified env request st = true := by
  unfold serveStaticFile
  rw [hstat]
  dsimp only
  rw [if_neg (by simp [hregular])]
  by_cases hmodified : notModified env request st = true
  · rw [if_pos hmodified]
    exact iff_of_true ⟨_, rfl, rfl⟩ hmodified
  · rw [if_neg hmodified]
    refine iff_of_false ?_ hmodified
    rintro ⟨response, hserve, hstatus⟩
    split_ifs at hserve
    · cases hserve
      cases hstatus
    · split at hserve
      · cases hserve
        cases hstatus
      · unfold serveOpenFile at hserve
        dsimp only at hserve
        split_ifs at hserve
        · split at hserve
          · cases hserve
          · cases hserve
            cases hstatus
          · cases hserve
            cases hstatus
        · cases hserve
          cases hstatus

/--
The file is not sent again when the precedence of the validators says so, exactly
unless a date is looked at behind tags that do not match, or a match is overlooked.
-/
theorem serveStaticFile_notModified_iff {path : Bytes} {s : OsState}
    (hstat : env.fs.statPath path = some st) (hregular : st.kind = .regular) :
    ((∃ response, (serveStaticFile env path request s).1 = .ok response ∧
        response.statusCode = .NotModified) ↔ validatorHolds env request st = true) ↔
      ¬ StaleDate env request st ∧ ¬ OverlookedMatch env request st := by
  rw [serveStaticFile_notModified hstat hregular, ← Bool.eq_iff_iff]
  exact notModified_iff_validatorHolds

end

/-- A clock that is at the date every header names. -/
def datedEnvironment : Environment :=
  { Environment.still (.flat [(ascii "a.txt", ascii "hello")]) fun _ => .forkFailed with
    parseHttpDate := fun _ => some 0 }

theorem serveStaticFile_notModified_iff_tag :
    ∃ response, (serveStaticFile datedEnvironment (ascii "/a.txt")
        { headers := AList.singleton (ascii "if-none-match") (ascii "\"1-5-0\"") } {}).1 =
          .ok response ∧
      response.statusCode = .NotModified := by
  have hstat : datedEnvironment.fs.statPath (ascii "/a.txt") =
      some (datedEnvironment.fs.stat 1) := by rfl
  refine ((serveStaticFile_notModified_iff hstat rfl).2 ⟨?_, ?_⟩).2 (by decide)
  · rintro ⟨_, ⟨⟩, hmatch, -⟩
    revert hmatch
    decide
  · rintro ⟨_, ⟨⟩, htag, -⟩
    revert htag
    decide

/-- The client has another version of the file, and is told that it has this one. -/
theorem stale_date_not_modified :
    let headers := (AList.singleton (ascii "if-none-match") (ascii "\"1-4-0\"")).insert
      (ascii "if-modified-since") (ascii "Thu, 01 Jan 1970 00:00:00 GMT")
    let request : HttpRequest := { headers }
    validatorHolds datedEnvironment request (datedEnvironment.fs.stat 1) = false ∧
      ∃ response, (serveStaticFile datedEnvironment (ascii "/a.txt") request {}).1 =
          .ok response ∧
        response.statusCode = .NotModified := by
  have hstat : datedEnvironment.fs.statPath (ascii "/a.txt") =
      some (datedEnvironment.fs.stat 1) := by rfl
  exact ⟨by decide, (serveStaticFile_notModified hstat rfl).2 (by decide)⟩

end CppHttpd
