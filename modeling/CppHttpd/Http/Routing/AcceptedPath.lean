import CppHttpd.Http.Routing.NormalForm

/-!
# Entries of an accepted path

Once a URI is resolved to a directory, another one is resolved to an entry of the
directory exactly if it has the segments of the first and the name behind them.
-/

namespace CppHttpd

open CppHttpd.Foundation

/-- A path below the root is written as the root is, from the root of the file system or not. -/
def writeSegments (root : Bytes) (segs : List Bytes) : Bytes :=
  if root = [] ∨ root.head? = some SLASH then absolutePath segs else relativePath segs

theorem normalizePath_combinePath {root uri : Bytes}
    (hne : normalSegments (combinePath root uri) ≠ []) :
    normalizePath (combinePath root uri) =
      writeSegments root (normalSegments (combinePath root uri)) := by
  unfold writeSegments
  split_ifs with hroot
  · apply normalizePath_absolute
    rcases hroot with rfl | habs
    · by_cases hempty : uri = [] ∨ uri = [SLASH]
      · rw [combinePath, if_pos hempty] at hne
        exact absurd rfl hne
      · rw [combinePath, if_neg hempty]
        rfl
    · exact combinePath_head habs uri
  · obtain ⟨hnil, hrel⟩ := not_or.1 hroot
    rw [normalizePath_relative (combinePath_relative hrel hnil uri), if_neg hne]

theorem writeSegments_concat (root : Bytes) {segs : List Bytes} (hne : segs ≠ [])
    (name : Bytes) : writeSegments root (segs ++ [name]) =
      writeSegments root segs ++ SLASH :: name := by
  have hlead : lead SLASH (segs ++ [name]) = lead SLASH segs ++ SLASH :: name := by
    rw [lead_append]
    simp [lead]
  unfold writeSegments
  split_ifs
  · rw [absolutePath_eq_lead hne, absolutePath_eq_lead (by simp), hlead]
  · rw [lead_eq_cons SLASH hne, lead_eq_cons SLASH (by simp)] at hlead
    exact (List.cons.inj hlead).2

/-- The name of a file is a segment of its own. -/
structure PlainName (name : Bytes) : Prop where
  noSlash : SLASH ∉ name
  plain : pathRule.Plain name

theorem PlainName.segments {name : Bytes} (h : PlainName name) : segments name = [name] :=
  List.splitOn_eq_singleton h.noSlash

theorem PlainName.normalSegments {name : Bytes} (h : PlainName name) (path : Bytes) :
    normalSegments (path ++ SLASH :: name) = normalSegments path ++ [name] := by
  rw [normalSegments_append_slash, h.segments]
  exact StackRule.run_plain (by simpa using h.plain) _

theorem pathUnderRoot_child {root path name : Bytes}
    (hpath : normalizePath path = path)
    (hchild : normalizePath (path ++ SLASH :: name) = path ++ SLASH :: name)
    (hunder : pathUnderRoot path root = true) :
    pathUnderRoot (path ++ SLASH :: name) root = true := by
  rw [pathUnderRoot_iff_boundary] at hunder ⊢
  obtain ⟨rest, hrest, hends⟩ := hunder
  refine ⟨rest ++ SLASH :: name, ?_, .inr ?_⟩
  · rw [hchild, ← List.append_assoc, ← hrest, hpath]
  · rcases hends with rfl | hhead
    · rfl
    · rw [List.head?_append, hhead]
      rfl

variable {vhost : VirtualHost} {uri uri' path name : Bytes}

theorem resolvePath_accepted (h : resolvePath vhost uri = (path, true)) :
    path = normalizePath (combinePath vhost.documentRoot uri) ∧
      pathUnderRoot path vhost.documentRoot = true := by
  unfold resolvePath at h
  dsimp only at h
  split_ifs at h with hunder
  · obtain ⟨rfl, -⟩ := Prod.mk.inj h
    exact ⟨rfl, hunder⟩
  · cases (Prod.mk.inj h).2

theorem normalSegments_accepted (h : resolvePath vhost uri = (path, true)) :
    normalSegments path = pathRule.run (normalSegments vhost.documentRoot) (segments uri) := by
  rw [(resolvePath_accepted h).1, normalSegments_normalizePath, normalSegments_combinePath,
    StackRule.run_append]
  rfl

/-- Of an accepted path, the root has no more segments. -/
theorem root_le_accepted (h : resolvePath vhost uri = (path, true)) :
    (normalSegments vhost.documentRoot).length ≤ (normalSegments path).length := by
  obtain ⟨hpath, hunder⟩ := resolvePath_accepted h
  by_cases hnil : normalSegments vhost.documentRoot = []
  · simp [hnil]
  · by_cases habs : vhost.documentRoot.head? = some SLASH
    · have hwritten := normalizePath_absolute (combinePath_head habs uri)
      rw [← hpath] at hwritten
      rw [hwritten, pathUnderRoot_iff habs (normalSegments_normal _)] at hunder
      rw [hpath, normalSegments_normalizePath]
      exact hunder.length_le
    · exact (normalSegments_prefix_of_relative habs hnil hunder).1.length_le

/-- A URI is resolved to an entry of an accepted path exactly if it has the name behind it. -/
theorem resolvePath_child_iff (hname : PlainName name)
    (h : resolvePath vhost uri = (path, true)) :
    resolvePath vhost uri' = (path ++ [SLASH] ++ name, true) ↔
      path ≠ [SLASH] ∧ pathRule.run (normalSegments vhost.documentRoot) (segments uri') =
        normalSegments path ++ [name] := by
  obtain ⟨hpath, hunder⟩ := resolvePath_accepted h
  have hidem : normalizePath path = path := by rw [hpath, normalizePath_idem]
  rw [List.append_assoc, List.singleton_append]
  constructor
  · intro hchild
    refine ⟨?_, ?_⟩
    · rintro rfl
      have hwritten := (resolvePath_accepted hchild).1
      have htwice := normalizePath_idem (combinePath vhost.documentRoot uri')
      rw [← hwritten, normalizePath_absolute rfl, hname.normalSegments] at htwice
      have hlen := congrArg List.length htwice
      have hroot : normalSegments [SLASH] = [] := by decide
      simp [hroot, absolutePath, List.intercalate] at hlen
    · rw [← normalSegments_accepted hchild, hname.normalSegments]
  · rintro ⟨hne, hsegs⟩
    have hnonempty : normalSegments path ≠ [] := by
      intro hnil
      rcases normalizePath_cases path with habs | ⟨hsome, -⟩
      · rw [hidem, hnil] at habs
        exact hne habs
      · exact hsome hnil
    have hcombined : normalSegments (combinePath vhost.documentRoot uri') =
        normalSegments path ++ [name] := by
      rw [normalSegments_combinePath, StackRule.run_append]
      exact hsegs
    have hpathsegs : normalSegments (combinePath vhost.documentRoot uri) =
        normalSegments path := by
      rw [hpath, normalSegments_normalizePath]
    have hwritten : path = writeSegments vhost.documentRoot (normalSegments path) := by
      rw [← hpathsegs, ← normalizePath_combinePath (hpathsegs ▸ hnonempty), ← hpath]
    have hchild : normalizePath (combinePath vhost.documentRoot uri') = path ++ SLASH :: name := by
      rw [normalizePath_combinePath (by simp [hcombined]), hcombined,
        writeSegments_concat _ hnonempty, ← hwritten]
    have hchildidem : normalizePath (path ++ SLASH :: name) = path ++ SLASH :: name := by
      rw [← hchild, normalizePath_idem]
    simp only [resolvePath, hchild, pathUnderRoot_child hidem hchildidem hunder, if_true]

end CppHttpd
