import CppHttpd.Http.Handlers.RangeRequests

/-!
# Content negotiation

`check_accept` reads the `Accept` header as a list of media ranges, each with
parameters that it does not look at.  A file is refused exactly when none of the
ranges covers the type that belongs to its suffix.
-/

namespace CppHttpd

open CppHttpd.Foundation

abbrev STAR : Byte := 42

/-! ## Media ranges -/

def IsMediaName (s : Bytes) : Prop :=
  s ≠ [] ∧ ∀ c ∈ s, c ∉ [SP, TAB, COMMA, SEMICOLON, SLASH, STAR]

instance (s : Bytes) : Decidable (IsMediaName s) :=
  decidable_of_iff
    (s ≠ [] ∧ s.all (fun c => decide (c ∉ [SP, TAB, COMMA, SEMICOLON, SLASH, STAR])) = true)
    (and_congr_right fun _ => by simp only [List.all_eq_true, decide_eq_true_eq])

abbrev MediaName := { s : Bytes // IsMediaName s }

structure MediaType where
  type : MediaName
  subtype : MediaName
  deriving DecidableEq

def MediaType.toBytes (t : MediaType) : Bytes := t.type.1 ++ SLASH :: t.subtype.1

inductive MediaRange where
  | all
  | family (type : MediaName)
  | only (type : MediaType)

namespace MediaRange

def toBytes : MediaRange → Bytes
  | .all => [STAR, SLASH, STAR]
  | .family type => type.1 ++ [SLASH, STAR]
  | .only type => type.toBytes

def Covers (t : MediaType) : MediaRange → Prop
  | .all => True
  | .family type => type = t.type
  | .only type => type = t

end MediaRange

/-- A list element, which may be empty, with blanks and parameters around it. -/
structure AcceptItem where
  range : Option MediaRange
  before : Bytes
  after : Bytes
  parameters : Option Bytes
  before_blank : ∀ c ∈ before, c = SP ∨ c = TAB
  after_blank : ∀ c ∈ after, c = SP ∨ c = TAB
  parameters_noComma : ∀ p ∈ parameters, COMMA ∉ p

namespace AcceptItem

def base (item : AcceptItem) : Bytes :=
  item.before ++ ((item.range.elim [] MediaRange.toBytes) ++ item.after)

def toBytes (item : AcceptItem) : Bytes :=
  item.base ++ item.parameters.elim [] (SEMICOLON :: ·)

def Covers (t : MediaType) (item : AcceptItem) : Prop := ∃ range ∈ item.range, range.Covers t

end AcceptItem

def acceptText (items : List AcceptItem) : Bytes :=
  [COMMA].intercalate (items.map AcceptItem.toBytes)

/-! ## One range -/

section

variable {s : Bytes} {c : Byte}

theorem IsMediaName.notMem (h : IsMediaName s) (hc : c ∈ [SP, TAB, COMMA, SEMICOLON, SLASH, STAR]) :
    c ∉ s := fun hmem => h.2 c hmem hc

theorem MediaType.notMem (t : MediaType) (hc : c ∈ [SP, TAB, COMMA, SEMICOLON, STAR]) :
    c ∉ t.toBytes := by
  have hall : c ∈ [SP, TAB, COMMA, SEMICOLON, SLASH, STAR] := by
    revert hc
    simp only [List.mem_cons, List.not_mem_nil, or_false]
    tauto
  have hslash : c ≠ SLASH := by
    rintro rfl
    revert hc
    decide
  rw [toBytes, List.mem_append, List.mem_cons, not_or, not_or]
  exact ⟨t.type.2.notMem hall, hslash, t.subtype.2.notMem hall⟩

theorem MediaRange.notMem (range : MediaRange) (hc : c ∈ [SP, TAB, COMMA, SEMICOLON]) :
    c ∉ range.toBytes := by
  have hstar : c ∈ [SP, TAB, COMMA, SEMICOLON, STAR] := List.mem_append_left [STAR] hc
  have hwild : c ∉ [SLASH, STAR] := by
    have hall : ∀ d ∈ [SP, TAB, COMMA, SEMICOLON], d ∉ [SLASH, STAR] :=
      forall_mem_of_all (by decide)
    exact hall c hc
  cases range with
  | all =>
      have hall : ∀ d ∈ [SP, TAB, COMMA, SEMICOLON], d ∉ MediaRange.all.toBytes :=
        forall_mem_of_all (by decide)
      exact hall c hc
  | family type =>
      rw [toBytes, List.mem_append, not_or]
      refine ⟨type.2.notMem ?_, hwild⟩
      revert hc
      simp only [List.mem_cons, List.not_mem_nil, or_false]
      tauto
  | only type => exact type.notMem hstar

theorem MediaRange.toBytes_ne_nil (range : MediaRange) : range.toBytes ≠ [] := by
  cases range <;> simp [toBytes, MediaType.toBytes]

theorem MediaType.toBytes_inj {t t' : MediaType} : t.toBytes = t'.toBytes ↔ t = t' := by
  constructor
  · intro h
    obtain ⟨htype, hsubtype⟩ := append_cons_inj (t.type.2.notMem (by simp))
      (t'.type.2.notMem (by simp)) h
    cases t
    cases t'
    congr
    · exact Subtype.ext htype
    · exact Subtype.ext hsubtype
  · exact congrArg _

theorem MediaType.getLast_ne (t : MediaType) : t.toBytes.getLast? ≠ some STAR := fun h =>
  t.notMem (by simp) (List.mem_of_getLast? h)

theorem take_eq_family_iff (t : MediaType) (type : MediaName) :
    t.toBytes.take (type.1.length + 1) = type.1 ++ [SLASH] ↔ type = t.type := by
  constructor
  · intro h
    have hcut := List.take_append_drop (type.1.length + 1) t.toBytes
    rw [h, MediaType.toBytes, List.append_assoc] at hcut
    exact Subtype.ext (append_cons_inj (type.2.notMem (by simp)) (t.type.2.notMem (by simp)) hcut).1
  · rintro rfl
    simp [MediaType.toBytes, List.take_append]

/-- The comparisons with what is left of a token. -/
def acceptsType (contentType type : Bytes) : Bool :=
  if type = [] then false
  else if type = ascii "*/*" then true
  else if type = contentType then true
  else
    type.length ≥ 2 ∧ type.getLast? = some STAR ∧ type[type.length - 2]? = some SLASH ∧
      contentType.length ≥ type.length - 1 ∧
      contentType.take (type.length - 1) = type.take (type.length - 1)

theorem acceptsToken_eq (contentType base : Bytes) (hbase : SEMICOLON ∉ base)
    (parameters : Option Bytes) :
    acceptsToken contentType (base ++ parameters.elim [] (SEMICOLON :: ·)) =
      acceptsType contentType (trim base (ascii " \t")) := by
  have hstar : byteOf '*' = STAR := by decide
  unfold acceptsToken
  cases parameters with
  | none =>
      rw [Option.elim_none, List.append_nil]
      simp only [find_none hbase, hstar]
      simp [acceptsType, compareEq]
  | some p =>
      simp only [Option.elim_some, find_append_cons hbase, substr_eq, List.drop_zero,
        List.take_left, hstar]
      simp [acceptsType, compareEq]

theorem acceptsType_range (t : MediaType) (range : MediaRange) :
    acceptsType t.toBytes range.toBytes = true ↔ range.Covers t := by
  have hall : MediaRange.all.toBytes = ascii "*/*" := by decide
  cases range with
  | all =>
      rw [hall]
      exact iff_of_true rfl trivial
  | family type =>
      have hne : type.1 ++ [SLASH, STAR] ≠ ascii "*/*" := fun heq => by
        have hhead : type.1.head? = some STAR := by
          rw [← List.head?_append_of_ne_nil _ type.2.1, heq]
          rfl
        exact type.2.notMem (by simp) (List.mem_of_head? hhead)
      have hother : type.1 ++ [SLASH, STAR] ≠ t.toBytes := fun heq =>
        t.getLast_ne (heq ▸ by simp)
      have htake : (type.1 ++ [SLASH, STAR]).take (type.1.length + 1) = type.1 ++ [SLASH] := by
        simp [List.take_append]
      have hslash : (type.1 ++ [SLASH, STAR])[type.1.length]? = some SLASH := by simp
      rw [MediaRange.toBytes, MediaRange.Covers, ← take_eq_family_iff t type]
      simp only [acceptsType, hne, hother, if_false, List.length_append, List.length_cons,
        List.length_nil]
      simp only [show type.1.length + (0 + 1 + 1) - 1 = type.1.length + 1 by omega,
        show type.1.length + (0 + 1 + 1) - 2 = type.1.length by omega, htake, hslash]
      have hlength (h : t.toBytes.take (type.1.length + 1) = type.1 ++ [SLASH]) :
          type.1.length + 1 ≤ t.toBytes.length := by
        have hcut := congrArg List.length h
        simp only [List.length_take, List.length_append, List.length_singleton] at hcut
        omega
      simp only [List.append_eq_nil_iff, reduceCtorEq, and_false, if_false]
      simpa using hlength
  | only type =>
      have hne : type.toBytes ≠ ascii "*/*" := fun heq =>
        type.getLast_ne (heq ▸ by decide)
      have hnil : type.toBytes ≠ [] := (MediaRange.only type).toBytes_ne_nil
      have hlast := type.getLast_ne
      rw [MediaRange.toBytes, MediaRange.Covers, ← MediaType.toBytes_inj]
      simp [acceptsType, hne, hnil, hlast]

end

/-! ## The whole header -/

namespace AcceptItem

variable (item : AcceptItem)

theorem base_notMem {c : Byte} (hc : c ∈ [COMMA, SEMICOLON]) : c ∉ item.base := by
  have hblank : ∀ d ∈ [COMMA, SEMICOLON], d ≠ SP ∧ d ≠ TAB :=
    forall_mem_of_all (by decide)
  have hpad {pad : Bytes} (h : ∀ d ∈ pad, d = SP ∨ d = TAB) : c ∉ pad := fun hmem =>
    (h c hmem).elim (hblank c hc).1 (hblank c hc).2
  rw [base, List.mem_append, List.mem_append, not_or, not_or]
  refine ⟨hpad item.before_blank, ?_, hpad item.after_blank⟩
  cases item.range with
  | none => simp
  | some range => exact range.notMem (List.mem_append_right [SP, TAB] hc)

theorem noComma : COMMA ∉ item.toBytes := by
  rw [toBytes, List.mem_append, not_or]
  refine ⟨item.base_notMem (by simp), ?_⟩
  cases hp : item.parameters with
  | none => simp
  | some p =>
      rw [Option.elim_some, List.mem_cons, not_or]
      exact ⟨by decide, item.parameters_noComma p hp⟩

theorem acceptsToken_iff (t : MediaType) :
    acceptsToken t.toBytes item.toBytes = true ↔ item.Covers t := by
  have hset : ascii " \t" = [SP, TAB] := by decide
  have hblank {pad : Bytes} (h : ∀ c ∈ pad, c = SP ∨ c = TAB) :
      ∀ c ∈ pad, (ascii " \t").contains c = true := fun c hc => by
    rw [hset]
    simpa using h c hc
  rw [toBytes, acceptsToken_eq _ _ (item.base_notMem (by simp)), base,
    trim_pad (hblank item.before_blank) (hblank item.after_blank), Covers]
  cases item.range with
  | none => exact iff_of_false (by simp [trim_of_notContains, acceptsType]) (by simp)
  | some range =>
      have htrim : trim range.toBytes (ascii " \t") = range.toBytes := by
        apply trim_of_notContains
        intro c hc
        rw [hset]
        by_contra hcontains
        refine range.notMem (c := c) ?_ hc
        have hmem : c ∈ [SP, TAB] := by simpa [or_iff_not_imp_left] using hcontains
        exact List.mem_append_left [COMMA, SEMICOLON] hmem
      simp [htrim, acceptsType_range]

end AcceptItem

theorem getLines_acceptText {items : List AcceptItem} (hne : items ≠ []) (t : MediaType) :
    (getLines COMMA (acceptText items)).any (acceptsToken t.toBytes) = true ↔
      ∃ item ∈ items, item.Covers t := by
  have hnone : acceptsToken t.toBytes [] = false := rfl
  have hsplit : (acceptText items).splitOn COMMA = items.map AcceptItem.toBytes := by
    apply List.splitOn_intercalate COMMA _ (by simpa using hne)
    simp only [List.mem_map]
    rintro _ ⟨item, -, rfl⟩
    exact item.noComma
  have hlines : (getLines COMMA (acceptText items)).any (acceptsToken t.toBytes) =
      (items.map AcceptItem.toBytes).any (acceptsToken t.toBytes) := by
    rw [getLines, hsplit]
    split_ifs with hlast
    · -- the piece that is left out accepts nothing
      obtain ⟨front, hfront⟩ := List.getLast?_eq_some_iff.1 hlast
      rw [hfront, List.dropLast_concat, List.any_append]
      simp [hnone]
    · rfl
  rw [hlines, List.any_map, List.any_eq_true]
  simp only [Function.comp_apply, AcceptItem.acceptsToken_iff]

/-! ## The types of files -/

def contentTypes : List Bytes :=
  [ascii "application/octet-stream", ascii "text/html", ascii "text/plain", ascii "text/css",
    ascii "application/javascript", ascii "application/json", ascii "application/xml",
    ascii "image/jpeg", ascii "image/png", ascii "image/gif", ascii "image/svg+xml",
    ascii "image/webp", ascii "image/x-icon", ascii "application/pdf", ascii "application/zip"]

theorem contentTypeFromSuffix_mem (path : Bytes) : contentTypeFromSuffix path ∈ contentTypes := by
  unfold contentTypeFromSuffix
  split
  · exact List.mem_cons_self
  · repeat
      refine iteInduction (motive := (· ∈ contentTypes)) (fun _ => List.elem_iff.1 rfl) fun _ => ?_
    exact List.elem_iff.1 rfl

/-- A type is cut at its slash. -/
def mediaType? (s : Bytes) : Option MediaType :=
  (cutAt SLASH s).bind fun parts =>
    if h : IsMediaName parts.1 ∧ IsMediaName parts.2 then some ⟨⟨parts.1, h.1⟩, ⟨parts.2, h.2⟩⟩
    else none

theorem exists_mediaType (path : Bytes) :
    ∃ t : MediaType, contentTypeFromSuffix path = t.toBytes := by
  have hall : ∀ s ∈ contentTypes, ((mediaType? s).map MediaType.toBytes) = some s := by decide
  obtain ⟨t, -, ht⟩ := Option.map_eq_some_iff.1 (hall _ (contentTypeFromSuffix_mem path))
  exact ⟨t, ht.symm⟩

/-! ## Which files are refused -/

/-- A response with this status is returned. -/
def AnswersWith (code : StatusCode) (r : Except NoReturn HttpResponse × OsState) : Prop :=
  ∃ response, r.1 = .ok response ∧ response.statusCode = code

section

variable {env : Environment} {request : HttpRequest} {path : Bytes} {st : Stat} {s : OsState}

theorem not_answersWith_ok {code : StatusCode} {response : HttpResponse}
    (h : response.statusCode ≠ code) : ¬ AnswersWith code (.ok response, s) := by
  rintro ⟨response, ⟨⟩, hcode⟩
  exact h hcode

theorem serveOpenFile_acceptable (fd : Fd) :
    ¬ AnswersWith .NotAcceptable (serveOpenFile env path request st fd s) := by
  unfold serveOpenFile
  dsimp only
  split_ifs
  · rcases parseRange (getHeader request.headers (ascii "range")) st.size with
      e | _ | ⟨start, last⟩
    · rintro ⟨response, hok, -⟩
      cases hok
    · exact not_answersWith_ok (show StatusCode.RangeNotSatisfiable ≠ _ by decide)
    · exact not_answersWith_ok (show StatusCode.PartialContent ≠ _ by decide)
  · exact not_answersWith_ok (show StatusCode.Ok ≠ _ by decide)

theorem serveStaticFile_notAcceptable_iff (hstat : env.fs.statPath path = some st)
    (hregular : st.kind = .regular) :
    AnswersWith .NotAcceptable (serveStaticFile env path request s) ↔
      notModified env request st = false ∧
        checkAccept request (contentTypeFromSuffix path) = false := by
  unfold serveStaticFile
  rw [hstat]
  dsimp only
  rw [if_neg (by simp [hregular])]
  cases hmodified : notModified env request st with
  | true =>
      exact iff_of_false
        (not_answersWith_ok (show StatusCode.NotModified ≠ _ by decide)) (by simp)
  | false =>
      cases haccept : checkAccept request (contentTypeFromSuffix path) with
      | false => exact iff_of_true ⟨_, rfl, rfl⟩ ⟨rfl, rfl⟩
      | true =>
          refine iff_of_false ?_ (by simp)
          rw [if_neg (by simp), if_neg (by simp)]
          rcases s.openFile env path with ⟨_ | fd, s'⟩
          · exact not_answersWith_ok (show StatusCode.InternalServerError ≠ _ by decide)
          · exact serveOpenFile_acceptable fd

theorem withoutBody_answersWith {code : StatusCode} {call : Call HttpResponse} :
    AnswersWith code (withoutBody request call s) ↔ AnswersWith code (call s) := by
  unfold withoutBody AnswersWith
  rcases call s with ⟨e | response, s'⟩
  · simp
  · simp only [Except.ok.injEq, exists_eq_left']
    unfold dropBody
    split_ifs <;> rfl

theorem handle_servedFile {config : Config} (hserved : servedFile env config request = some path)
    (acceptingNewConnections : Bool) (clientRemoteAddr : Option Bytes) :
    handle env config request acceptingNewConnections clientRemoteAddr s =
      withoutBody request (serveStaticFile env path request) s := by
  rw [handle_eq]
  unfold servedFile at hserved
  split at hserved
  · rename_i hroute
    cases hserved
    rw [hroute]
    rfl
  · rename_i vhost dirPath hroute
    rw [hroute, answer]
    unfold withoutBody
    rw [serveDirectoryIndex_file hserved]
  · cases hserved

end

/--
A file is refused with 406 exactly if the client does not have it already and no
media range of its `Accept` header covers the type of the file; the parameters of
the ranges, weights included, change nothing.
-/
theorem handle_notAcceptable_iff (env : Environment) (config : Config) (request : HttpRequest)
    (acceptingNewConnections : Bool) (clientRemoteAddr : Option Bytes) (s : OsState)
    {path : Bytes} {st : Stat} {items : List AcceptItem}
    (hserved : servedFile env config request = some path)
    (hstat : env.fs.statPath path = some st) (hregular : st.kind = .regular)
    (haccept : getHeader request.headers (ascii "accept") = acceptText items)
    (hpresent : acceptText items ≠ []) :
    ∃ t : MediaType, contentTypeFromSuffix path = t.toBytes ∧
      (AnswersWith .NotAcceptable
          (handle env config request acceptingNewConnections clientRemoteAddr s) ↔
        notModified env request st = false ∧ ∀ item ∈ items, ¬ item.Covers t) := by
  obtain ⟨t, ht⟩ := exists_mediaType path
  have hne : items ≠ [] := by
    rintro rfl
    exact hpresent rfl
  have hcheck : checkAccept request t.toBytes = false ↔ ∀ item ∈ items, ¬ item.Covers t := by
    have hlines := getLines_acceptText hne t
    unfold checkAccept
    rw [haccept, if_neg hpresent, ← Bool.not_eq_true, hlines]
    simp
  refine ⟨t, ht, ?_⟩
  rw [handle_servedFile hserved, withoutBody_answersWith,
    serveStaticFile_notAcceptable_iff hstat hregular, ht, hcheck]

/-- A host with a single file under its root. -/
def textSite : Environment := .still (.flat [(ascii "a.txt", ascii "text")]) fun _ => .forkFailed

def textConfig : Config := { virtualHosts := [⟨ascii "/", ascii "localhost"⟩] }

def pictureRequest : HttpRequest where
  uri := ascii "/a.txt"
  headers := AList.singleton (ascii "accept") (ascii "text/html, image/*;q=0.5")

/-- A text file is not wanted by a client that takes pages and images only. -/
theorem handle_notAcceptable_iff_text : ∃ items : List AcceptItem, ∃ t : MediaType,
    contentTypeFromSuffix (ascii "/a.txt") = t.toBytes ∧
      (AnswersWith .NotAcceptable (handle textSite textConfig pictureRequest true none {}) ↔
        notModified textSite pictureRequest (textSite.fs.stat 1) = false ∧
          ∀ item ∈ items, ¬ item.Covers t) := by
  let html : MediaType := ⟨⟨ascii "text", by decide⟩, ⟨ascii "html", by decide⟩⟩
  let page : AcceptItem :=
    { range := some (.only html), before := [], after := [], parameters := none
      before_blank := by simp, after_blank := by simp, parameters_noComma := by simp }
  let image : AcceptItem :=
    { range := some (.family ⟨ascii "image", by decide⟩), before := [SP], after := []
      parameters := some (ascii "q=0.5"), before_blank := by simp, after_blank := by simp
      parameters_noComma := by
        rintro p ⟨⟩
        decide }
  have htext : acceptText [page, image] = ascii "text/html, image/*;q=0.5" := by decide
  have hserved : servedFile textSite textConfig pictureRequest = some (ascii "/a.txt") := by
    decide +kernel
  have hstat : textSite.fs.statPath (ascii "/a.txt") = some (textSite.fs.stat 1) := by rfl
  have haccept : getHeader pictureRequest.headers (ascii "accept") = acceptText [page, image] := by
    rw [htext]
    decide
  exact ⟨[page, image], handle_notAcceptable_iff textSite textConfig pictureRequest true none {}
    hserved hstat rfl haccept (by rw [htext]; decide)⟩

end CppHttpd
