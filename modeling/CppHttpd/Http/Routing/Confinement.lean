import CppHttpd.Foundation.Segments
import CppHttpd.Http.Routing.VHostResolver

/-!
# Confinement to the document root

A path is accepted by comparing characters: the normalised root has to be a
prefix of the normalised path that ends at a slash.  Read as lists of segments,
the segments of the root have to be a prefix of what the stack rule makes of
the segments of root and URI.
-/

namespace CppHttpd

open CppHttpd.Foundation

/-- Empty segments and `.` are dropped, and `..` goes up. -/
def pathRule : StackRule Bytes where
  skip segment := segment = [] || segment = ascii "."
  up segment := segment = ascii ".."

def segments (path : Bytes) : List Bytes := path.splitOn SLASH

def normalSegments (path : Bytes) : List Bytes := pathRule.run [] (segments path)

/-! ## `normalize_path` -/

theorem closeSegment_eq (parts : List Bytes) (segment : Bytes) :
    closeSegment parts segment = pathRule.push parts segment := by
  by_cases hempty : segment = []
  · subst hempty
    rfl
  · by_cases hdot : segment = ascii "."
    · subst hdot
      rfl
    · simp [closeSegment, StackRule.push, pathRule, hempty, hdot]

theorem modifyHead_nil_append (l : List Bytes) : l.modifyHead (([] : Bytes) ++ ·) = l := by
  cases l <;> rfl

theorem normalizeLoop_eq (path : Bytes) (parts : List Bytes) (segment : Bytes) :
    normalizeLoop parts segment path =
      pathRule.run parts ((segments path).modifyHead (segment ++ ·)) := by
  induction path generalizing parts segment with
  | nil => simp [normalizeLoop, segments, StackRule.run_cons, closeSegment_eq]
  | cons c path ih =>
      rw [normalizeLoop, segments, List.splitOn_cons_eq_if_modifyHead]
      by_cases hc : c = SLASH
      · rw [if_pos hc, if_pos (by simp [hc]), ih, closeSegment_eq, modifyHead_nil_append,
          List.modifyHead_cons, List.append_nil, StackRule.run_cons]
        rfl
      · rw [if_neg hc, if_neg (by simpa using hc), ih, List.modifyHead_modifyHead]
        simp [segments, Function.comp_def]

theorem normalizeLoop_fresh (path : Bytes) :
    normalizeLoop [] [] path = normalSegments path := by
  rw [normalizeLoop_eq, modifyHead_nil_append]
  rfl

theorem segments_slash (path : Bytes) : segments (SLASH :: path) = [] :: segments path := by
  simp [segments, List.splitOn_cons_eq_if_modifyHead]

theorem normalSegments_slash (path : Bytes) :
    normalSegments (SLASH :: path) = normalSegments path := by
  rw [normalSegments, segments_slash, StackRule.run_cons]
  rfl

def absolutePath (segs : List Bytes) : Bytes := SLASH :: [SLASH].intercalate segs

def Normal (segs : List Bytes) : Prop :=
  ∀ segment ∈ segs, SLASH ∉ segment ∧ pathRule.Plain segment

theorem Normal.slash_not_mem {segs : List Bytes} (hsegs : Normal segs) :
    ∀ segment ∈ segs, SLASH ∉ segment :=
  fun segment hmem => (hsegs segment hmem).1

theorem Normal.plain {segs : List Bytes} (hsegs : Normal segs) :
    ∀ segment ∈ segs, pathRule.Plain segment :=
  fun segment hmem => (hsegs segment hmem).2

theorem Normal.append {segs more : List Bytes} (hsegs : Normal segs) (hmore : Normal more) :
    Normal (segs ++ more) :=
  List.forall_mem_append.2 ⟨hsegs, hmore⟩

theorem plain_iff (segment : Bytes) :
    pathRule.Plain segment ↔ segment ≠ [] ∧ segment ≠ ascii "." ∧ segment ≠ ascii ".." := by
  simp [StackRule.Plain, pathRule, and_assoc]

theorem normalSegments_normal (path : Bytes) : Normal (normalSegments path) :=
  StackRule.mem_run (by simp) (splitOn_not_mem SLASH path)

theorem normalizePath_absolute {path : Bytes} (habs : path.head? = some SLASH) :
    normalizePath path = absolutePath (normalSegments path) := by
  obtain ⟨rest, rfl⟩ : ∃ rest, path = SLASH :: rest := by
    cases path with
    | nil => simp at habs
    | cons c rest => exact ⟨rest, by simpa using habs⟩
  simp [normalizePath, normalizeLoop_fresh, normalSegments_slash, absolutePath]

theorem absolutePath_eq_lead {segs : List Bytes} (hne : segs ≠ []) :
    absolutePath segs = lead SLASH segs := (lead_eq_cons SLASH hne).symm

theorem normalSegments_absolutePath {segs : List Bytes} (hsegs : Normal segs) :
    normalSegments (absolutePath segs) = segs := by
  by_cases hne : segs = []
  · subst hne
    rfl
  · rw [absolutePath_eq_lead hne, normalSegments, segments,
      splitOn_lead SLASH hsegs.slash_not_mem, StackRule.run_cons]
    exact StackRule.run_plain hsegs.plain []

/-! ## `path_under_root` -/

theorem lead_getLast {segs : List Bytes} (hsegs : Normal segs) :
    (lead SLASH segs).getLast? ≠ some SLASH := by
  rcases segs.eq_nil_or_concat with rfl | ⟨init, last, rfl⟩
  · simp [lead]
  · obtain ⟨hslash, hplain⟩ := hsegs last (by simp)
    obtain ⟨hlast, -⟩ := (plain_iff last).1 hplain
    intro hend
    have hlead : lead SLASH (init.concat last) = (lead SLASH init ++ [SLASH]) ++ last := by
      simp [lead]
    rw [hlead, List.getLast?_append_of_ne_nil _ hlast] at hend
    exact hslash (List.mem_of_getLast? hend)

theorem normRoot_eq {root : Bytes} (habs : root.head? = some SLASH) :
    (if normalizePath root ≠ [] ∧ (normalizePath root).getLast? = some SLASH then
      (normalizePath root).dropLast else normalizePath root) =
      lead SLASH (normalSegments root) := by
  rw [normalizePath_absolute habs]
  by_cases hne : normalSegments root = []
  · rw [hne]
    rfl
  · rw [absolutePath_eq_lead hne,
      if_neg fun hboth => lead_getLast (normalSegments_normal root) hboth.2]

theorem boundary_iff (text pre : Bytes) :
    (text = pre ∨ text.length > pre.length ∧ text[pre.length]? = some SLASH ∧
        text.take pre.length = pre) ↔
      ∃ rest, text = pre ++ rest ∧ (rest = [] ∨ rest.head? = some SLASH) := by
  constructor
  · rintro (rfl | ⟨hlen, hslash, htake⟩)
    · exact ⟨[], by simp, .inl rfl⟩
    · refine ⟨text.drop pre.length, ?_, .inr ?_⟩
      · conv_lhs => rw [← List.take_append_drop pre.length text, htake]
      · rw [List.head?_drop]
        exact hslash
  · rintro ⟨rest, rfl, rfl | hhead⟩
    · exact .inl (by simp)
    · cases rest with
      | nil => simp at hhead
      | cons c rest =>
          refine .inr ⟨by simp, ?_, by simp⟩
          simpa using hhead

theorem pathUnderRoot_iff_boundary (path root : Bytes) :
    pathUnderRoot path root = true ↔
      ∃ rest, normalizePath path =
          (if normalizePath root ≠ [] ∧ (normalizePath root).getLast? = some SLASH then
            (normalizePath root).dropLast else normalizePath root) ++ rest ∧
        (rest = [] ∨ rest.head? = some SLASH) := by
  rw [← boundary_iff, pathUnderRoot]
  simp only [compareEq, List.drop_zero]
  split_ifs with hend heq heq
  all_goals simp [heq]

theorem pathUnderRoot_iff {root : Bytes} (habs : root.head? = some SLASH)
    {segs : List Bytes} (hsegs : Normal segs) :
    pathUnderRoot (absolutePath segs) root = true ↔ normalSegments root <+: segs := by
  have hroot := normalSegments_normal root
  have hpath : normalizePath (absolutePath segs) = absolutePath segs := by
    rw [normalizePath_absolute rfl, normalSegments_absolutePath hsegs]
  rw [pathUnderRoot_iff_boundary, hpath, normRoot_eq habs]
  by_cases hne : segs = []
  · subst hne
    rw [List.prefix_nil]
    constructor
    · rintro ⟨rest, hrest, -⟩
      by_contra hne
      obtain ⟨segment, more, hmore⟩ := List.exists_cons_of_ne_nil hne
      obtain ⟨hsegment, -⟩ := (plain_iff segment).1 (hroot segment (by simp [hmore])).2
      have hlen := congrArg List.length hrest
      have hpos := List.length_pos_iff.2 hsegment
      simp only [hmore, lead, absolutePath, List.flatMap_cons, List.length_append,
        List.length_cons, List.intercalate_nil, List.length_nil] at hlen
      omega
    · intro hnil
      exact ⟨[SLASH], by rw [hnil]; rfl, .inr rfl⟩
  · rw [absolutePath_eq_lead hne, ← prefix_iff_lead SLASH hroot.slash_not_mem hsegs.slash_not_mem]

/-! ## `resolve_path` -/

theorem run_trimTrailingSlash (stack : List Bytes) (root : Bytes) :
    pathRule.run stack (segments (trimTrailingSlash root)) =
      pathRule.run stack (segments root) := by
  unfold trimTrailingSlash
  split_ifs with hempty hlast
  · rfl
  · obtain ⟨init, rfl⟩ : ∃ init, root = init ++ [SLASH] := by
      exact ⟨root.dropLast, (List.dropLast_append_getLast? SLASH hlast).symm⟩
    have hsplit : segments (init ++ [SLASH]) = segments init ++ [[]] := by
      simp [segments, List.splitOn_append_cons_self]
    rw [hsplit, StackRule.run_append]
    simp [StackRule.run_cons, StackRule.push, pathRule]
  · rfl

theorem run_trimLeadingSlash (stack : List Bytes) (uri : Bytes) :
    pathRule.run stack (segments (trimLeadingSlash uri)) =
      pathRule.run stack (segments uri) := by
  unfold trimLeadingSlash
  cases uri with
  | nil => rfl
  | cons c rest =>
      dsimp only
      split_ifs with hc
      · rw [hc, segments_slash, StackRule.run_cons]
        rfl
      · rfl

theorem normalSegments_combinePath (root uri : Bytes) :
    normalSegments (combinePath root uri) =
      pathRule.run [] (segments root ++ segments uri) := by
  unfold combinePath
  rw [StackRule.run_append]
  split_ifs with htrivial
  · rcases htrivial with rfl | rfl
    · rfl
    · rfl
  · have hsplit : segments (trimTrailingSlash root ++ [SLASH] ++ trimLeadingSlash uri) =
        segments (trimTrailingSlash root) ++ segments (trimLeadingSlash uri) := by
      simp [segments, List.splitOn_append_cons_self]
    rw [normalSegments, hsplit, StackRule.run_append, run_trimTrailingSlash,
      run_trimLeadingSlash]

theorem trimTrailingSlash_head {root : Bytes} (habs : root.head? = some SLASH) :
    trimTrailingSlash root = [] ∨ (trimTrailingSlash root).head? = some SLASH := by
  unfold trimTrailingSlash
  split_ifs
  · exact .inr habs
  · rw [substr_eq, List.drop_zero, List.head?_take]
    split_ifs with hzero
    · exact .inl (by rw [hzero, List.take_zero])
    · exact .inr habs
  · exact .inr habs

theorem combinePath_head {root : Bytes} (habs : root.head? = some SLASH) (uri : Bytes) :
    (combinePath root uri).head? = some SLASH := by
  unfold combinePath
  split_ifs
  · exact habs
  · rcases trimTrailingSlash_head habs with hnil | hhead
    · simp [hnil]
    · simp [hhead]

/--
Resolution follows the stack rule over the segments of root and URI: it accepts
exactly if that stays below the root, and then returns exactly that path.
-/
theorem resolvePath_confined (vhost : VirtualHost) (uri : Bytes)
    (habs : vhost.documentRoot.head? = some SLASH) :
    let rootSegs := pathRule.run [] (segments vhost.documentRoot)
    let segs := pathRule.run [] (segments vhost.documentRoot ++ segments uri)
    ((resolvePath vhost uri).2 = true ↔ rootSegs <+: segs) ∧
      ((resolvePath vhost uri).2 = true →
        (resolvePath vhost uri).1 = SLASH :: [SLASH].intercalate segs ∧
          (∀ segment ∈ segs, segment ≠ [] ∧ segment ≠ ascii "." ∧ segment ≠ ascii ".." ∧
            SLASH ∉ segment) ∧
          normalSegments (resolvePath vhost uri).1 = segs) ∧
      ((resolvePath vhost uri).2 = false → (resolvePath vhost uri).1 = []) := by
  intro rootSegs segs
  have hnormal : Normal segs := by
    have hcombined := normalSegments_normal (combinePath vhost.documentRoot uri)
    rwa [normalSegments_combinePath] at hcombined
  have hcanonical : normalizePath (combinePath vhost.documentRoot uri) = absolutePath segs := by
    rw [normalizePath_absolute (combinePath_head habs uri), normalSegments_combinePath]
  have hunder : pathUnderRoot (absolutePath segs) vhost.documentRoot = true ↔
      rootSegs <+: segs := pathUnderRoot_iff habs hnormal
  unfold resolvePath
  simp only [hcanonical]
  cases hcase : pathUnderRoot (absolutePath segs) vhost.documentRoot with
  | false =>
      rw [hcase] at hunder
      exact ⟨by simpa using hunder, by simp, by simp⟩
  | true =>
      rw [hcase] at hunder
      refine ⟨by simpa using hunder, fun _ => ⟨rfl, fun segment hmem => ?_, ?_⟩, by simp⟩
      · obtain ⟨hslash, hplain⟩ := hnormal segment hmem
        obtain ⟨hne, hdot, hdots⟩ := (plain_iff segment).1 hplain
        exact ⟨hne, hdot, hdots, hslash⟩
      · exact normalSegments_absolutePath hnormal

/-- A root with dot segments, and a URI that climbs to a sibling of the same spelling. -/
theorem resolvePath_confined_sibling :
    let vhost : VirtualHost :=
      { documentRoot := ascii "/srv/./old/../www/", serverName := ascii "localhost" }
    let uri := ascii "/a/../../www2//x"
    let rootSegs := pathRule.run [] (segments vhost.documentRoot)
    let segs := pathRule.run [] (segments vhost.documentRoot ++ segments uri)
    rootSegs = [ascii "srv", ascii "www"] ∧ segs = [ascii "srv", ascii "www2", ascii "x"] ∧
      ((resolvePath vhost uri).2 = true ↔ rootSegs <+: segs) :=
  ⟨by decide, by decide, (resolvePath_confined _ _ (by decide)).1⟩

end CppHttpd
