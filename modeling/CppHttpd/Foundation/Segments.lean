import Mathlib.Data.List.Basic
import Mathlib.Data.List.Infix

/-!
# Texts of segments

A text cut at every separator is a list of segments, and a list of segments
is written with a separator in front of each.  Whether one written list begins
another, up to the end of a segment, is whether the one list begins the other.

The stack rule runs over segments: some are dropped, some remove the last
segment kept, and the others are kept.
-/

namespace CppHttpd.Foundation

/-! ## Writing and cutting -/

section

variable {α : Type*} [BEq α] [LawfulBEq α] (sep : α)

/-- The segments, each with a separator in front of it. -/
def lead (segs : List (List α)) : List α := segs.flatMap (sep :: ·)

omit [BEq α] [LawfulBEq α] in
theorem lead_append (segs segs' : List (List α)) :
    lead sep (segs ++ segs') = lead sep segs ++ lead sep segs' := List.flatMap_append

omit [BEq α] [LawfulBEq α] in
theorem lead_eq_intercalate (segs : List (List α)) :
    lead sep segs = [sep].intercalate ([] :: segs) := by
  induction segs with
  | nil => rfl
  | cons seg segs ih =>
      cases segs with
      | nil => simp [lead, List.intercalate]
      | cons seg' segs =>
          rw [lead, List.flatMap_cons, ← lead, ih]
          simp [List.intercalate, List.intersperse]

omit [BEq α] [LawfulBEq α] in
theorem lead_eq_cons {segs : List (List α)} (hne : segs ≠ []) :
    lead sep segs = sep :: [sep].intercalate segs := by
  obtain ⟨seg, rest, rfl⟩ := List.exists_cons_of_ne_nil hne
  rw [lead_eq_intercalate]
  simp [List.intercalate, List.intersperse]

omit [BEq α] [LawfulBEq α] in
theorem lead_head (segs : List (List α)) :
    lead sep segs = [] ∨ (lead sep segs).head? = some sep := by
  cases segs with
  | nil => exact .inl rfl
  | cons seg segs => exact .inr rfl

omit [BEq α] [LawfulBEq α] in
theorem not_mem_lead {sep c : α} (hc : c ≠ sep) {segs : List (List α)}
    (h : ∀ seg ∈ segs, c ∉ seg) : c ∉ lead sep segs := by
  simp only [lead, List.mem_flatMap, List.mem_cons, not_exists, not_and, not_or]
  exact fun seg hmem => ⟨hc, h seg hmem⟩

theorem splitOn_lead {segs : List (List α)} (hsegs : ∀ seg ∈ segs, sep ∉ seg) :
    (lead sep segs).splitOn sep = [] :: segs := by
  rw [lead_eq_intercalate, List.splitOn_intercalate]
  · simpa using hsegs
  · simp

theorem splitOn_not_mem (text : List α) : ∀ seg ∈ text.splitOn sep, sep ∉ seg := by
  induction text with
  | nil => simp
  | cons c text ih =>
      rw [List.splitOn_cons_eq_if_modifyHead]
      split_ifs with hc
      · simpa using ih
      · obtain ⟨seg, rest, hsplit⟩ :=
          List.exists_cons_of_ne_nil (List.splitOn_ne_nil sep text)
        rw [hsplit] at ih ⊢
        obtain ⟨hseg, hrest⟩ := List.forall_mem_cons.1 ih
        have hne : sep ≠ c := fun heq => hc (by simp [heq])
        simpa [hne, hseg] using hrest

omit [LawfulBEq α] in
theorem mem_of_mem_splitOn {text seg : List α} (hseg : seg ∈ text.splitOn sep) :
    seg ⊆ text := by
  induction text generalizing seg with
  | nil =>
      obtain rfl : seg = [] := by simpa using hseg
      exact List.Subset.refl _
  | cons c text ih =>
      rw [List.splitOn_cons_eq_if_modifyHead] at hseg
      split_ifs at hseg with hc
      · rcases List.mem_cons.1 hseg with rfl | hseg
        · exact List.nil_subset _
        · exact List.subset_cons_of_subset c (ih hseg)
      · obtain ⟨first, rest, hsplit⟩ :=
          List.exists_cons_of_ne_nil (List.splitOn_ne_nil sep text)
        rw [hsplit] at ih hseg
        rcases List.mem_cons.1 hseg with rfl | hseg
        · exact List.cons_subset_cons c (ih List.mem_cons_self)
        · exact List.subset_cons_of_subset c (ih (List.mem_cons_of_mem _ hseg))

theorem prefix_iff_lead {segs segs' : List (List α)} (hsegs : ∀ seg ∈ segs, sep ∉ seg)
    (hsegs' : ∀ seg ∈ segs', sep ∉ seg) :
    segs <+: segs' ↔
      ∃ rest, lead sep segs' = lead sep segs ++ rest ∧ (rest = [] ∨ rest.head? = some sep) := by
  constructor
  · rintro ⟨more, rfl⟩
    exact ⟨lead sep more, lead_append sep segs more, lead_head sep more⟩
  · rintro ⟨rest, hrest, rfl | hhead⟩
    · have hsplit := congrArg (List.splitOn sep) hrest
      rw [List.append_nil, splitOn_lead sep hsegs, splitOn_lead sep hsegs'] at hsplit
      exact (List.cons.inj hsplit).2 ▸ List.prefix_refl _
    · obtain ⟨rest, rfl⟩ : ∃ t, rest = sep :: t := by
        cases rest with
        | nil => simp at hhead
        | cons c t => exact ⟨t, by simpa using hhead⟩
      have hsplit := congrArg (List.splitOn sep) hrest
      rw [List.splitOn_append_cons_self, splitOn_lead sep hsegs, splitOn_lead sep hsegs'] at hsplit
      exact ⟨rest.splitOn sep, (List.cons.inj hsplit).2.symm⟩

end

/-! ## The stack rule -/

structure StackRule (σ : Type*) where
  skip : σ → Bool
  /-- The segment removes the one before it, if there is one. -/
  up : σ → Bool

namespace StackRule

variable {σ : Type*} (R : StackRule σ)

def push (stack : List σ) (seg : σ) : List σ :=
  if R.skip seg then stack
  else if R.up seg then stack.dropLast
  else stack ++ [seg]

def run (stack : List σ) (segs : List σ) : List σ := segs.foldl R.push stack

def Plain (seg : σ) : Prop := R.skip seg = false ∧ R.up seg = false

@[simp] theorem run_nil (stack : List σ) : R.run stack [] = stack := rfl

theorem run_cons (stack : List σ) (seg : σ) (segs : List σ) :
    R.run stack (seg :: segs) = R.run (R.push stack seg) segs := rfl

theorem run_append (stack segs segs' : List σ) :
    R.run stack (segs ++ segs') = R.run (R.run stack segs) segs' := List.foldl_append

variable {R}

theorem run_plain {segs : List σ} (hplain : ∀ seg ∈ segs, R.Plain seg) (stack : List σ) :
    R.run stack segs = stack ++ segs := by
  induction segs generalizing stack with
  | nil => simp
  | cons seg segs ih =>
      obtain ⟨⟨hskip, hup⟩, hsegs⟩ := List.forall_mem_cons.1 hplain
      rw [run_cons, push, hskip, hup, if_neg (by simp), if_neg (by simp), ih hsegs]
      simp

theorem run_filter {segs : List σ} (h : ∀ seg ∈ segs, R.up seg = true → R.skip seg = true)
    (stack : List σ) : R.run stack segs = stack ++ segs.filter (!R.skip ·) := by
  induction segs generalizing stack with
  | nil => simp
  | cons seg segs ih =>
      obtain ⟨hseg, hsegs⟩ := List.forall_mem_cons.1 h
      rw [run_cons, ih hsegs, push]
      by_cases hskip : R.skip seg = true
      · simp [hskip]
      · have hup : R.up seg = false := by
          simpa using fun hup => hskip (hseg hup)
        simp [hskip, hup]

theorem mem_run {P : σ → Prop} {segs stack : List σ}
    (hstack : ∀ seg ∈ stack, P seg ∧ R.Plain seg) (hsegs : ∀ seg ∈ segs, P seg) :
    ∀ seg ∈ R.run stack segs, P seg ∧ R.Plain seg := by
  induction segs generalizing stack with
  | nil => exact hstack
  | cons seg segs ih =>
      obtain ⟨hseg, hrest⟩ := List.forall_mem_cons.1 hsegs
      rw [run_cons]
      refine ih (fun kept hkept => ?_) hrest
      unfold push at hkept
      split_ifs at hkept with hskip hup
      · exact hstack kept hkept
      · exact hstack kept (List.mem_of_mem_dropLast hkept)
      · rcases List.mem_append.1 hkept with hkept | hkept
        · exact hstack kept hkept
        · rw [List.mem_singleton] at hkept
          subst hkept
          exact ⟨hseg, by simpa using hskip, by simpa using hup⟩

/-! ### Climbing out -/

variable (R)

/-- How many segments of a stack are removed that lie below the first `depth` of its top. -/
def climb : Nat → List σ → Nat
  | _, [] => 0
  | depth, seg :: segs =>
      if R.skip seg then climb depth segs
      else if R.up seg then
        if depth = 0 then climb 0 segs + 1 else climb (depth - 1) segs
      else climb (depth + 1) segs

theorem dropLast_eq_take_sub (stack : List σ) (n : Nat) :
    stack.dropLast.take (stack.dropLast.length - n) = stack.take (stack.length - (n + 1)) := by
  rw [List.dropLast_eq_take, List.take_take, List.length_take]
  congr 1
  omega

/-- A run over a stack removes its end, and goes on as it would without the stack. -/
theorem run_eq_take (segs stack inner : List σ) :
    R.run (stack ++ inner) segs =
      stack.take (stack.length - R.climb inner.length segs) ++ R.run inner segs := by
  induction segs generalizing stack inner with
  | nil => simp [climb]
  | cons seg segs ih =>
      rw [run_cons, run_cons, climb]
      by_cases hskip : R.skip seg = true
      · simp only [push, hskip, if_true]
        exact ih stack inner
      · by_cases hup : R.up seg = true
        · rcases inner.eq_nil_or_concat with rfl | ⟨init, last, rfl⟩
          · have hrest := ih stack.dropLast []
            rw [dropLast_eq_take_sub] at hrest
            simpa [push, hskip, hup] using hrest
          · have hrest := ih stack init
            simpa [push, hskip, hup, ← List.append_assoc] using hrest
        · have hrest := ih stack (inner ++ [seg])
          simpa [push, hskip, hup, ← List.append_assoc] using hrest

end StackRule

end CppHttpd.Foundation
