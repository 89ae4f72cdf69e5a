import CppHttpd.Http.Routing.Confinement
import CppHttpd.Os.FileSystem

/-!
# Resolved paths in the kernel

A resolved path is a written list of plain segments, and its bytes may include
NUL.  The kernel then sees the segments in front of the first NUL only, the last
of them cut short, so that it need not be plain any more.
-/

namespace CppHttpd

open CppHttpd.Foundation

/-! ## The segments that the kernel sees -/

/-- A list of segments, taken apart at the first one with a NUL, or else at the last. -/
structure Cut (segs pre : List Bytes) (seg : Bytes) (post : List Bytes) : Prop where
  eq : segs = pre ++ seg :: post
  pre_clean : ∀ segment ∈ pre, NUL ∉ segment
  reason : NUL ∈ seg ∨ post = []

theorem exists_cut {segs : List Bytes} (hne : segs ≠ []) :
    ∃ pre seg post, Cut segs pre seg post := by
  induction segs with
  | nil => exact absurd rfl hne
  | cons first segs ih =>
      by_cases hnul : NUL ∈ first
      · exact ⟨[], first, segs, rfl, by simp, .inl hnul⟩
      · by_cases hnil : segs = []
        · exact ⟨[], first, segs, rfl, by simp, .inr hnil⟩
        · obtain ⟨pre, seg, post, rfl, hpre, hreason⟩ := ih hnil
          refine ⟨first :: pre, seg, post, rfl, ?_, hreason⟩
          simpa [hnul] using hpre

namespace Cut

variable {segs pre post : List Bytes} {seg : Bytes}

theorem cString_lead (h : Cut segs pre seg post) :
    cString (lead SLASH segs) = lead SLASH (pre ++ [cString seg]) := by
  have hslash : NUL ∉ [SLASH] := by decide
  have hlast : cString (seg ++ lead SLASH post) = cString seg := by
    rcases h.reason with hnul | rfl
    · exact cString_append_of_mem hnul _
    · simp [lead]
  rw [h.eq, lead_append, lead_append,
    cString_append_of_not_mem (not_mem_lead (by decide) h.pre_clean)]
  change _ ++ cString ([SLASH] ++ (seg ++ lead SLASH post)) = _
  rw [cString_append_of_not_mem hslash, hlast]
  simp [lead]

theorem pre_normal (h : Cut segs pre seg post) (hsegs : Normal segs) : Normal pre :=
  fun segment hmem => hsegs segment (by simp [h.eq, hmem])

theorem not_mem (h : Cut segs pre seg post) (hslash : ∀ segment ∈ segs, SLASH ∉ segment) :
    ∀ segment ∈ pre ++ [cString seg], SLASH ∉ segment := by
  rw [h.eq] at hslash
  intro segment hmem
  rcases List.mem_append.1 hmem with hmem | hmem
  · exact hslash segment (List.mem_append_left _ hmem)
  · rw [List.mem_singleton.1 hmem]
    exact not_mem_cString seg (hslash seg (by simp))

theorem splitOn_cString (h : Cut segs pre seg post)
    (hslash : ∀ segment ∈ segs, SLASH ∉ segment) :
    (cString (lead SLASH segs)).splitOn SLASH = [] :: (pre ++ [cString seg]) := by
  rw [h.cString_lead, splitOn_lead SLASH (h.not_mem hslash)]

theorem cString_ne_nil (h : Cut segs pre seg post) : cString (lead SLASH segs) ≠ [] := by
  rw [h.cString_lead]
  cases pre <;> simp [lead]

theorem start_lead (fs : FileSystem) (h : Cut segs pre seg post) :
    fs.start (cString (lead SLASH segs)) = fs.root := by
  rw [h.cString_lead]
  cases pre <;> simp [FileSystem.start, lead]

theorem target_lead (fs : FileSystem) (h : Cut segs pre seg post)
    (hslash : ∀ segment ∈ segs, SLASH ∉ segment) :
    fs.target (lead SLASH segs) = fs.walk fs.root ([] :: (pre ++ [cString seg])) := by
  simp only [FileSystem.target, h.cString_ne_nil, if_false, h.start_lead,
    h.splitOn_cString hslash]

theorem reachHolder_lead (fs : FileSystem) (h : Cut segs pre seg post)
    (hslash : ∀ segment ∈ segs, SLASH ∉ segment) :
    fs.reachHolder (lead SLASH segs) = fs.walk fs.root ([] :: pre) := by
  simp only [FileSystem.reachHolder, h.cString_ne_nil, if_false, h.start_lead,
    h.splitOn_cString hslash]
  congr 1
  rw [← List.cons_append, List.dropLast_concat]

theorem mem_iff (h : Cut segs pre seg post) : NUL ∈ lead SLASH segs ↔ NUL ∈ seg := by
  have hpre : NUL ∉ lead SLASH pre := not_mem_lead (by decide) h.pre_clean
  rw [h.eq, lead_append, List.mem_append, or_iff_right hpre]
  rcases h.reason with hnul | rfl
  · simp [lead, hnul]
  · have hne : NUL ≠ SLASH := by decide
    simp [lead, hne]

end Cut

end CppHttpd
