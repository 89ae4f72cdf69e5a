import CppHttpd.Http.Routing.Confinement

/-!
# The normal form of a path

`normalize_path` writes what the stack rule keeps.  A relative path of which
nothing is kept is written as the root, and so turns absolute.
-/

namespace CppHttpd

open CppHttpd.Foundation

/-! ## Written paths -/

def relativePath (segs : List Bytes) : Bytes := [SLASH].intercalate segs

theorem segments_relativePath {segs : List Bytes} (hsegs : Normal segs) (hne : segs ≠ []) :
    segments (relativePath segs) = segs :=
  List.splitOn_intercalate SLASH hsegs.slash_not_mem hne

theorem normalSegments_relativePath {segs : List Bytes} (hsegs : Normal segs)
    (hne : segs ≠ []) : normalSegments (relativePath segs) = segs := by
  rw [normalSegments, segments_relativePath hsegs hne]
  exact StackRule.run_plain hsegs.plain []

theorem relativePath_head {segs : List Bytes} (hsegs : Normal segs) (hne : segs ≠ []) :
    (relativePath segs).head? ≠ some SLASH := by
  intro hhead
  obtain ⟨rest, hrest⟩ : ∃ rest, relativePath segs = SLASH :: rest := by
    cases hpath : relativePath segs with
    | nil => simp [hpath] at hhead
    | cons c rest => exact ⟨rest, by simpa [hpath] using hhead⟩
  -- a path with a slash in front has an empty first segment
  have hsplit := segments_relativePath hsegs hne
  rw [hrest, segments_slash] at hsplit
  have hplain := hsegs.plain [] (by simp [← hsplit])
  exact ((plain_iff []).1 hplain).1 rfl

theorem relativePath_ne_nil {segs : List Bytes} (hsegs : Normal segs) (hne : segs ≠ []) :
    relativePath segs ≠ [] := by
  intro hnil
  have hsplit := segments_relativePath hsegs hne
  rw [hnil] at hsplit
  have hplain := hsegs.plain [] (by simp [← hsplit, segments])
  exact ((plain_iff []).1 hplain).1 rfl

theorem relativePath_getLast {segs : List Bytes} (hsegs : Normal segs) (hne : segs ≠ []) :
    (relativePath segs).getLast? ≠ some SLASH := by
  intro hlast
  have hlead := lead_getLast hsegs
  rw [lead_eq_cons SLASH hne] at hlead
  apply hlead
  rw [List.getLast?_cons, ← relativePath, hlast]
  rfl

/-! ## What `normalize_path` writes -/

theorem normalizePath_relative {path : Bytes} (hrel : path.head? ≠ some SLASH) :
    normalizePath path =
      if normalSegments path = [] then [SLASH] else relativePath (normalSegments path) := by
  have hnormal := normalSegments_normal path
  simp only [normalizePath, hrel, if_false, normalizeLoop_fresh, List.nil_append]
  by_cases hne : normalSegments path = []
  · simp [hne]
  · rw [if_neg hne]
    exact if_neg (relativePath_ne_nil hnormal hne)

/-- A normalised path is written with a slash in front, or it is relative and not empty. -/
theorem normalizePath_cases (path : Bytes) :
    normalizePath path = absolutePath (normalSegments path) ∨
      normalSegments path ≠ [] ∧ normalizePath path = relativePath (normalSegments path) := by
  by_cases habs : path.head? = some SLASH
  · exact .inl (normalizePath_absolute habs)
  · rw [normalizePath_relative habs]
    split_ifs with hnil
    · left
      rw [hnil]
      rfl
    · exact .inr ⟨hnil, rfl⟩

theorem normalSegments_normalizePath (path : Bytes) :
    normalSegments (normalizePath path) = normalSegments path := by
  have hnormal := normalSegments_normal path
  rcases normalizePath_cases path with habs | ⟨hne, hrel⟩
  · rw [habs, normalSegments_absolutePath hnormal]
  · rw [hrel, normalSegments_relativePath hnormal hne]

theorem normalizePath_idem (path : Bytes) :
    normalizePath (normalizePath path) = normalizePath path := by
  have hnormal := normalSegments_normal path
  have hsegs := normalSegments_normalizePath path
  rcases normalizePath_cases path with habs | ⟨hne, hrel⟩
  · have hhead : (normalizePath path).head? = some SLASH := by
      rw [habs]
      rfl
    rw [normalizePath_absolute hhead, hsegs, habs]
  · have hhead : (normalizePath path).head? ≠ some SLASH := by
      rw [hrel]
      exact relativePath_head hnormal hne
    rw [normalizePath_relative hhead, hsegs, if_neg hne, hrel]

/-! ## The normal form -/

theorem trimLeadingSlash_absolutePath (segs : List Bytes) :
    trimLeadingSlash (absolutePath segs) = relativePath segs := by
  simp [trimLeadingSlash, absolutePath, relativePath]

theorem trimLeadingSlash_eq_self {path : Bytes} (hhead : path.head? ≠ some SLASH) :
    trimLeadingSlash path = path := by
  cases path with
  | nil => rfl
  | cons c rest =>
      have hc : c ≠ SLASH := by simpa using hhead
      simp [trimLeadingSlash, hc]

theorem absolutePath_getLast {segs : List Bytes} (hsegs : Normal segs) (hne : segs ≠ []) :
    (absolutePath segs).getLast? ≠ some SLASH := by
  rw [absolutePath_eq_lead hne]
  exact lead_getLast hsegs

theorem normalizePath_form (path : Bytes) (hroot : normalizePath path ≠ [SLASH]) :
    (∀ segment ∈ segments (trimLeadingSlash (normalizePath path)),
        segment ≠ [] ∧ segment ≠ ascii "." ∧ segment ≠ ascii "..") ∧
      (normalizePath path).getLast? ≠ some SLASH := by
  have hnormal := normalSegments_normal path
  have hplain : ∀ segment ∈ normalSegments path,
      segment ≠ [] ∧ segment ≠ ascii "." ∧ segment ≠ ascii ".." :=
    fun segment hmem => (plain_iff segment).1 (hnormal.plain segment hmem)
  rcases normalizePath_cases path with habs | ⟨hne, hrel⟩
  · have hne : normalSegments path ≠ [] := by
      intro hnil
      rw [hnil] at habs
      exact hroot habs
    rw [habs, trimLeadingSlash_absolutePath, segments_relativePath hnormal hne]
    exact ⟨hplain, absolutePath_getLast hnormal hne⟩
  · rw [hrel, trimLeadingSlash_eq_self (relativePath_head hnormal hne),
      segments_relativePath hnormal hne]
    exact ⟨hplain, relativePath_getLast hnormal hne⟩

/-! ## Relative roots -/

theorem combinePath_relative {root : Bytes} (hrel : root.head? ≠ some SLASH) (hne : root ≠ [])
    (uri : Bytes) : (combinePath root uri).head? ≠ some SLASH := by
  obtain ⟨c, rest, rfl⟩ := List.exists_cons_of_ne_nil hne
  have hc : c ≠ SLASH := by simpa using hrel
  unfold combinePath
  split_ifs
  · exact hrel
  · have htrim : ∃ front, trimTrailingSlash (c :: rest) = c :: front := by
      by_cases hlast : (c :: rest).getLast? = some SLASH
      · cases rest with
        | nil => exact absurd (by simpa using hlast) hc
        | cons d rest =>
            refine ⟨(d :: rest).take rest.length, ?_⟩
            rw [trimTrailingSlash, if_neg hne, if_pos hlast]
            simp [substr_eq]
      · exact ⟨rest, by rw [trimTrailingSlash, if_neg hne, if_neg hlast]⟩
    obtain ⟨front, hfront⟩ := htrim
    rw [hfront]
    simpa using hc

theorem normRoot_relative {root : Bytes} (hrel : root.head? ≠ some SLASH)
    (hne : normalSegments root ≠ []) :
    (if normalizePath root ≠ [] ∧ (normalizePath root).getLast? = some SLASH then
      (normalizePath root).dropLast else normalizePath root) =
      relativePath (normalSegments root) := by
  have hlast := relativePath_getLast (normalSegments_normal root) hne
  rw [normalizePath_relative hrel, if_neg hne, if_neg fun hboth => hlast hboth.2]

theorem normalSegments_prefix_of_relative {root path : Bytes} (hrel : root.head? ≠ some SLASH)
    (hne : normalSegments root ≠ []) (hunder : pathUnderRoot path root = true) :
    normalSegments root <+: normalSegments path ∧
      normalizePath path = relativePath (normalSegments path) ∧ normalSegments path ≠ [] := by
  have hroot := normalSegments_normal root
  have hpath := normalSegments_normal path
  obtain ⟨rest, hrest, hends⟩ := (pathUnderRoot_iff_boundary path root).1 hunder
  rw [normRoot_relative hrel hne] at hrest
  have hhead : (normalizePath path).head? ≠ some SLASH := by
    rw [hrest, List.head?_append_of_ne_nil _ (relativePath_ne_nil hroot hne)]
    exact relativePath_head hroot hne
  rcases normalizePath_cases path with habs | ⟨hsegs, hwritten⟩
  · rw [habs] at hhead
    exact absurd rfl hhead
  · refine ⟨?_, hwritten, hsegs⟩
    rw [prefix_iff_lead SLASH hroot.slash_not_mem hpath.slash_not_mem]
    refine ⟨rest, ?_, hends⟩
    rw [lead_eq_cons SLASH hsegs, lead_eq_cons SLASH hne, ← relativePath, ← hwritten, hrest]
    rfl

/-! ## Composition -/

theorem segments_append_slash (path more : Bytes) :
    segments (path ++ SLASH :: more) = segments path ++ segments more := by
  simp [segments, List.splitOn_append_cons_self]

theorem normalSegments_append_slash (path more : Bytes) :
    normalSegments (path ++ SLASH :: more) =
      pathRule.run (normalSegments path) (segments more) := by
  rw [normalSegments, segments_append_slash, StackRule.run_append]
  rfl

theorem normalizePath_append {path : Bytes} (habs : path.head? = some SLASH) (more : Bytes) :
    normalizePath (path ++ SLASH :: more) =
      normalizePath (normalizePath path ++ SLASH :: more) := by
  have hnorm : (normalizePath path).head? = some SLASH := by
    rw [normalizePath_absolute habs]
    rfl
  have happend : ∀ {front : Bytes}, front.head? = some SLASH →
      (front ++ SLASH :: more).head? = some SLASH := by
    intro front hfront
    simp [hfront]
  rw [normalizePath_absolute (happend habs), normalizePath_absolute (happend hnorm),
    normalSegments_append_slash, normalSegments_append_slash, normalSegments_normalizePath]

/--
Normalising is idempotent, what it returns has no segment left to remove, and an
absolute path may be normalised before anything is written behind it.
-/
theorem normalizePath_normal_form (path : Bytes) :
    normalizePath (normalizePath path) = normalizePath path ∧
      (normalizePath path = [SLASH] ∨
        (∀ segment ∈ segments (trimLeadingSlash (normalizePath path)),
          segment ≠ [] ∧ segment ≠ ascii "." ∧ segment ≠ ascii "..") ∧
        (normalizePath path).getLast? ≠ some SLASH) ∧
      (path.head? = some SLASH → ∀ more,
        normalizePath (path ++ SLASH :: more) =
          normalizePath (normalizePath path ++ SLASH :: more)) := by
  refine ⟨normalizePath_idem path, ?_, fun habs more => normalizePath_append habs more⟩
  by_cases hroot : normalizePath path = [SLASH]
  · exact .inl hroot
  · exact .inr (normalizePath_form path hroot)

/-- An absolute path that climbs past the root. -/
theorem normalizePath_normal_form_climbs :
    normalizePath (ascii "/a//./../../b/" ++ SLASH :: ascii "../c") =
      normalizePath (ascii "/b" ++ SLASH :: ascii "../c") := by
  have happlied := (normalizePath_normal_form (ascii "/a//./../../b/")).2.2 (by decide)
    (ascii "../c")
  have hnorm : normalizePath (ascii "/a//./../../b/") = ascii "/b" := by decide
  rwa [hnorm] at happlied

end CppHttpd
