import CppHttpd.Foundation.Bytes
import CppHttpd.Foundation.Segments
import Mathlib.Data.List.DropRight

/-!
# References

How a client follows a link, after RFC 3986.  A reference is taken apart at the
first byte that can end a part of it, and its path is put behind the directory of
the base; dot segments are then removed.  A reference with a scheme or an
authority of its own leaves the server.
-/

namespace CppHttpd.Foundation

/-- What a client asks a server for.  A fragment is not sent. -/
structure Target where
  path : Bytes
  query : Option Bytes := none
  deriving DecidableEq, Repr

structure UriReference extends Target where
  scheme : Option Bytes := none
  authority : Option Bytes := none
  deriving DecidableEq, Repr

def Target.toBytes (t : Target) : Bytes := t.path ++ t.query.elim [] (QUESTION :: ·)

/-! ## Taking a reference apart -/

def cutScheme (s : Bytes) : Option Bytes × Bytes :=
  let scheme := s.takeWhile (· ∉ ascii ":/?#")
  match s.drop scheme.length with
  | [] => (none, s)
  | c :: rest => if c = COLON ∧ scheme ≠ [] then (some scheme, rest) else (none, s)

def cutAuthority (s : Bytes) : Option Bytes × Bytes :=
  match expect (ascii "//") s with
  | none => (none, s)
  | some rest => (some (rest.takeWhile (· ∉ ascii "/?#")), rest.dropWhile (· ∉ ascii "/?#"))

def queryOf (s : Bytes) : Option Bytes :=
  match s with
  | [] => none
  | c :: rest => if c = QUESTION then some (rest.takeWhile (· ≠ byteOf '#')) else none

def parseTarget (s : Bytes) : Target where
  path := s.takeWhile (· ∉ ascii "?#")
  query := queryOf (s.dropWhile (· ∉ ascii "?#"))

def parseReference (s : Bytes) : UriReference :=
  let (scheme, s) := cutScheme s
  let (authority, s) := cutAuthority s
  { parseTarget s with scheme, authority }

/-! ## Following it -/

def dotRule : StackRule Bytes where
  skip segment := segment = ascii "."
  up segment := segment = ascii ".."

/-- A dot segment at the end leaves the slash in front of it. -/
def closeDots (segs : List Bytes) : List Bytes :=
  let kept := dotRule.run [] segs
  if segs.getLast? = some (ascii ".") ∨ segs.getLast? = some (ascii "..") then kept ++ [[]]
  else kept

/-- A path with a slash in front without its dot segments. -/
def removeDotSegments (path : Bytes) : Bytes :=
  lead SLASH (closeDots (path.splitOn SLASH).tail)

def mergePaths (base path : Bytes) : Bytes :=
  if base = [] then SLASH :: path else base.rdropWhile (· ≠ SLASH) ++ path

/-- Where a reference leads, if it stays on the server of its base. -/
def Target.follow (base : Target) (r : UriReference) : Option Target :=
  if r.scheme.isSome ∨ r.authority.isSome then none
  else if r.path = [] then some { path := base.path, query := r.query.or base.query }
  else if r.path.head? = some SLASH then
    some { path := removeDotSegments r.path, query := r.query }
  else some { path := removeDotSegments (mergePaths base.path r.path), query := r.query }

/-! ## Dot segments -/

theorem mem_run_dotRule {segs : List Bytes} {P : Bytes → Prop} (h : ∀ seg ∈ segs, P seg) :
    ∀ seg ∈ dotRule.run [] segs, P seg ∧ seg ≠ ascii "." ∧ seg ≠ ascii ".." := by
  intro seg hmem
  obtain ⟨hseg, hskip, hup⟩ := StackRule.mem_run (R := dotRule) (by simp) h seg hmem
  exact ⟨hseg, by simpa [dotRule] using hskip, by simpa [dotRule] using hup⟩

theorem mem_closeDots {segs : List Bytes} {P : Bytes → Prop} (hnil : P [])
    (h : ∀ seg ∈ segs, P seg) :
    ∀ seg ∈ closeDots segs, P seg ∧ seg ≠ ascii "." ∧ seg ≠ ascii ".." := by
  have hkept := mem_run_dotRule h
  unfold closeDots
  dsimp only
  split_ifs
  · intro seg hmem
    rcases List.mem_append.1 hmem with hmem | hmem
    · exact hkept seg hmem
    · obtain rfl := List.mem_singleton.1 hmem
      exact ⟨hnil, by decide, by decide⟩
  · exact hkept

theorem removeDotSegments_subset {path : Bytes} {c : Byte} (hc : c ≠ SLASH) (h : c ∉ path) :
    c ∉ removeDotSegments path := by
  have hsegs : ∀ seg ∈ (path.splitOn SLASH).tail, c ∉ seg := fun seg hmem hseg =>
    h (mem_of_mem_splitOn SLASH (List.mem_of_mem_tail hmem) hseg)
  have hclosed := mem_closeDots (P := (c ∉ ·)) (by simp) hsegs
  exact not_mem_lead hc fun seg hmem => (hclosed seg hmem).1

theorem mergePaths_subset {base path : Bytes} {c : Byte} (hc : c ≠ SLASH) (hbase : c ∉ base)
    (hpath : c ∉ path) : c ∉ mergePaths base path := by
  unfold mergePaths
  split_ifs
  · simpa using ⟨hc, hpath⟩
  · rw [List.mem_append, not_or]
    exact ⟨fun hmem => hbase ((List.rdropWhile_prefix _ _).subset hmem), hpath⟩

/-- The segments of the directory that a reference is taken from. -/
def Target.directory (base : Target) : List Bytes :=
  dotRule.run [] (base.path.splitOn SLASH).tail.dropLast

theorem exists_last_slash {path : Bytes} (h : SLASH ∈ path) :
    ∃ front last, path = front ++ SLASH :: last ∧ SLASH ∉ last := by
  obtain ⟨last, front, hreverse, hlast⟩ :=
    List.eq_append_cons_of_mem (List.mem_reverse.2 h)
  refine ⟨front.reverse, last.reverse, ?_, by simpa using hlast⟩
  rw [← List.reverse_reverse path, hreverse]
  simp

theorem splitOn_mergePaths {base : Bytes} (hbase : SLASH ∈ base) (path : Bytes) :
    (mergePaths base path).splitOn SLASH =
      (base.splitOn SLASH).dropLast ++ path.splitOn SLASH := by
  obtain ⟨front, last, rfl, hlast⟩ := exists_last_slash hbase
  have hdrop : last.rdropWhile (· ≠ SLASH) = [] := by
    rw [List.rdropWhile_eq_nil_iff]
    intro c hc
    simpa using fun heq : c = SLASH => hlast (heq ▸ hc)
  have hfront : (front ++ SLASH :: last).rdropWhile (· ≠ SLASH) = front ++ [SLASH] := by
    rw [rdropWhile_append_cons (by simp), hdrop]
  rw [mergePaths, if_neg (by simp), hfront, List.append_assoc, List.singleton_append,
    List.splitOn_append_cons_self, List.splitOn_append_cons_self,
    List.splitOn_eq_singleton hlast, List.dropLast_concat]

theorem directory_of_plain {base : Target} {front last : Bytes}
    (hpath : base.path = front ++ SLASH :: last) (hlast : SLASH ∉ last)
    (hplain : ∀ seg ∈ front.splitOn SLASH, dotRule.Plain seg) :
    base.directory = (front.splitOn SLASH).tail := by
  obtain ⟨seg, segs, hsegs⟩ := List.exists_cons_of_ne_nil (List.splitOn_ne_nil SLASH front)
  rw [Target.directory, hpath, List.splitOn_append_cons_self, List.splitOn_eq_singleton hlast,
    hsegs, List.cons_append, List.tail_cons, List.dropLast_concat, List.tail_cons,
    StackRule.run_plain, List.nil_append]
  exact fun seg hmem => hplain seg (hsegs ▸ List.mem_cons_of_mem _ hmem)

/-- What is taken from the directory comes behind its segments. -/
theorem splitOn_removeDotSegments {base : Target} (hbase : base.path.head? = some SLASH)
    {path : Bytes} (hplain : ∀ seg ∈ path.splitOn SLASH, dotRule.Plain seg) :
    (removeDotSegments (mergePaths base.path path)).splitOn SLASH =
      [] :: (base.directory ++ path.splitOn SLASH) := by
  obtain ⟨rest, hrest⟩ : ∃ rest, base.path = SLASH :: rest := by
    cases hpath : base.path with
    | nil => simp [hpath] at hbase
    | cons c rest => exact ⟨rest, by simpa [hpath] using hbase⟩
  have hsplit : base.path.splitOn SLASH = [] :: rest.splitOn SLASH := by
    simp [hrest, List.splitOn_cons_eq_if_modifyHead]
  have hmerged : (mergePaths base.path path).splitOn SLASH =
      [] :: ((rest.splitOn SLASH).dropLast ++ path.splitOn SLASH) := by
    rw [splitOn_mergePaths (by simp [hrest]), hsplit,
      List.dropLast_cons_of_ne_nil (List.splitOn_ne_nil _ _), List.cons_append]
  have hlast : ∀ seg, ((rest.splitOn SLASH).dropLast ++ path.splitOn SLASH).getLast? = some seg →
      dotRule.Plain seg := by
    intro seg hseg
    rw [List.getLast?_append_of_ne_nil _ (List.splitOn_ne_nil _ _)] at hseg
    exact hplain seg (List.mem_of_getLast? hseg)
  have hclosed : closeDots ((rest.splitOn SLASH).dropLast ++ path.splitOn SLASH) =
      base.directory ++ path.splitOn SLASH := by
    unfold closeDots
    dsimp only
    rw [if_neg, StackRule.run_append, StackRule.run_plain hplain, Target.directory, hsplit,
      List.tail_cons]
    rintro (hdot | hdots)
    · exact absurd (hlast _ hdot).1 (by decide)
    · exact absurd (hlast _ hdots).2 (by decide)
  rw [removeDotSegments, hmerged, List.tail_cons, hclosed, splitOn_lead]
  intro seg hmem
  rcases List.mem_append.1 hmem with hmem | hmem
  · have hsegs : ∀ seg ∈ (base.path.splitOn SLASH).tail.dropLast, SLASH ∉ seg := fun seg hseg =>
      splitOn_not_mem SLASH _ seg (List.mem_of_mem_tail (List.mem_of_mem_dropLast hseg))
    exact (mem_run_dotRule (P := (SLASH ∉ ·)) hsegs seg hmem).1
  · exact splitOn_not_mem SLASH path seg hmem

/-! ## Marks -/

theorem not_mem_parseTarget {c : Byte} (hc : c ∈ ascii "?#") (s : Bytes) :
    c ∉ (parseTarget s).path := by
  intro hmem
  have hnot := List.mem_takeWhile_imp hmem
  simp only [decide_eq_true_eq] at hnot
  exact hnot hc

/-- No path that a client comes to has a mark in it. -/
theorem not_mem_follow {c : Byte} (hc : c ∈ ascii "?#") {base target : Target}
    (hbase : c ∉ base.path) {s : Bytes} (h : base.follow (parseReference s) = some target) :
    c ∉ target.path := by
  have hslash : c ≠ SLASH := by
    rintro rfl
    revert hc
    decide
  have hpath : c ∉ (parseReference s).path := not_mem_parseTarget hc _
  unfold Target.follow at h
  split_ifs at h
  · obtain rfl := Option.some.inj h
    exact hbase
  · obtain rfl := Option.some.inj h
    exact removeDotSegments_subset hslash hpath
  · obtain rfl := Option.some.inj h
    exact removeDotSegments_subset hslash (mergePaths_subset hslash hbase hpath)

theorem parseTarget_of_noMarks {s : Bytes} (h : ∀ c ∈ s, c ∉ ascii "?#") :
    parseTarget s = { path := s } := by
  have htake : s.takeWhile (· ∉ ascii "?#") = s := by simpa using h
  have hdrop : s.dropWhile (· ∉ ascii "?#") = [] := by simpa using h
  rw [parseTarget, htake, hdrop]
  rfl

/-- In front of its first colon a text has a scheme, or nothing. -/
theorem cutScheme_of_colon {front rest : Bytes} (hfront : ∀ c ∈ front, c ∉ ascii ":/?#") :
    cutScheme (front ++ COLON :: rest) =
      if front = [] then (none, COLON :: rest) else (some front, rest) := by
  have hcolon : COLON ∈ ascii ":/?#" := by decide
  have htake : (front ++ COLON :: rest).takeWhile (· ∉ ascii ":/?#") = front := by
    rw [List.takeWhile_append_of_pos (by simpa using hfront),
      List.takeWhile_cons_of_neg (by simp [hcolon]), List.append_nil]
  simp only [cutScheme, htake, List.drop_left]
  by_cases hnil : front = []
  · simp [hnil]
  · simp [hnil]

theorem cutScheme_of_noColon {s : Bytes} (h : COLON ∉ s) : cutScheme s = (none, s) := by
  simp only [cutScheme]
  split
  · rfl
  · rename_i c rest hdrop
    have hmem : c ∈ s := List.mem_of_mem_drop (hdrop ▸ List.mem_cons_self)
    rw [if_neg]
    rintro ⟨rfl, -⟩
    exact h hmem

theorem parseReference_of_noScheme {s : Bytes} (hmarks : ∀ c ∈ s, c ∉ ascii "?#")
    (hslash : s.head? ≠ some SLASH) (hscheme : cutScheme s = (none, s)) :
    parseReference s = { path := s } := by
  have hexpect : expect (ascii "//") s = none := by
    rw [Option.eq_none_iff_forall_ne_some]
    intro rest hrest
    rw [expect_eq_some_iff] at hrest
    rw [hrest] at hslash
    exact hslash rfl
  simp only [parseReference, hscheme, cutAuthority, hexpect, parseTarget_of_noMarks hmarks]

theorem follow_relative (base : Target) {path : Bytes} (hne : path ≠ [])
    (hslash : path.head? ≠ some SLASH) :
    base.follow { path := path } =
      some { path := removeDotSegments (mergePaths base.path path) } := by
  simp [Target.follow, hne, hslash]

theorem follow_of_scheme {s : Bytes} (h : (cutScheme s).1.isSome = true) {base : Target} :
    base.follow (parseReference s) = none := by
  have hscheme : (parseReference s).scheme.isSome = true := h
  rw [Target.follow, if_pos (.inl hscheme)]

end CppHttpd.Foundation
