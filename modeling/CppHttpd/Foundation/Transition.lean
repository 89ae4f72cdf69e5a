import Mathlib.Data.List.Basic

/-!
# Labelled transitions

A machine takes a step for a label, if that label is possible in its state.
`ReachedBy ok` are the states of those runs in which every step meets `ok`; an
invariant of them is proved from one step.  A `Run` keeps its steps, the last one
first, so that a property of all its states can be compared with one of its steps.
-/

namespace CppHttpd.Foundation

structure Machine (S L : Type*) where
  init : S → Prop
  step : S → L → Option S

namespace Machine

variable {S L : Type*} (M : Machine S L)

inductive ReachedBy (ok : S → L → Prop) : S → Prop
  | init {s : S} (hinit : M.init s) : ReachedBy ok s
  | step {s s' : S} {l : L} (hs : ReachedBy ok s) (hok : ok s l)
      (hstep : M.step s l = some s') : ReachedBy ok s'

abbrev Reached : S → Prop := M.ReachedBy fun _ _ => True

/-- Take the steps of a list of labels, as long as they meet `ok`. -/
def run (ok : S → L → Bool) (s : S) : List L → Option S
  | [] => some s
  | l :: labels => if ok s l then (M.step s l).bind fun s' => run ok s' labels else none

variable {M}

theorem ReachedBy.invariant {ok : S → L → Prop} {Inv : S → Prop}
    (hinit : ∀ s, M.init s → Inv s)
    (hstep : ∀ s l s', Inv s → ok s l → M.step s l = some s' → Inv s')
    {s : S} (h : M.ReachedBy ok s) : Inv s := by
  induction h with
  | init hs => exact hinit _ hs
  | step _ hok hs ih => exact hstep _ _ _ ih hok hs

theorem ReachedBy.mono {ok ok' : S → L → Prop} (himp : ∀ s l, ok s l → ok' s l)
    {s : S} (h : M.ReachedBy ok s) : M.ReachedBy ok' s := by
  induction h with
  | init hs => exact .init hs
  | step _ hok hs ih => exact .step ih (himp _ _ hok) hs

/-- A run that can be computed is a run. -/
theorem ReachedBy.run {ok : S → L → Bool} {s s' : S}
    (h : M.ReachedBy (fun s l => ok s l = true) s) (labels : List L)
    (hrun : M.run ok s labels = some s') : M.ReachedBy (fun s l => ok s l = true) s' := by
  induction labels generalizing s with
  | nil =>
      cases hrun
      exact h
  | cons l labels ih =>
      rw [Machine.run] at hrun
      split_ifs at hrun with hok
      obtain ⟨s₁, hstep, hrest⟩ := Option.bind_eq_some_iff.1 hrun
      exact ih (.step h hok hstep) hrest

/-- The same machine, but for where it starts. -/
def startingAt (M : Machine S L) (s : S) : Machine S L := { M with init := (· = s) }

/-! ## Runs with their steps -/

variable (M) in
inductive Run : List (S × L) → S → Prop
  | init {s : S} (hinit : M.init s) : Run [] s
  | step {trace : List (S × L)} {s s' : S} {l : L} (hrun : Run trace s)
      (hstep : M.step s l = some s') : Run ((s, l) :: trace) s'

variable (M) in
/-- Take the steps of a list of labels and keep them. -/
def record (trace : List (S × L)) (s : S) : List L → Option (List (S × L) × S)
  | [] => some (trace, s)
  | l :: labels => (M.step s l).bind fun s' => record ((s, l) :: trace) s' labels

theorem Run.record {trace : List (S × L)} {s : S} (h : M.Run trace s) (labels : List L)
    {r : List (S × L) × S} (hrecord : M.record trace s labels = some r) : M.Run r.1 r.2 := by
  induction labels generalizing trace s with
  | nil =>
      cases hrecord
      exact h
  | cons l labels ih =>
      obtain ⟨s₁, hstep, hrest⟩ := Option.bind_eq_some_iff.1 hrecord
      exact ih (.step h hstep) hrest

theorem Run.reached {trace : List (S × L)} {s : S} (h : M.Run trace s) : M.Reached s := by
  induction h with
  | init hinit => exact .init hinit
  | step _ hstep ih => exact .step ih trivial hstep

theorem ReachedBy.exists_run {ok : S → L → Prop} {s : S} (h : M.ReachedBy ok s) :
    ∃ trace, M.Run trace s := by
  induction h with
  | init hinit => exact ⟨[], .init hinit⟩
  | step _ _ hstep ih =>
      obtain ⟨trace, hrun⟩ := ih
      exact ⟨_, .step hrun hstep⟩

/-- `P` holds in every state of a run exactly when every step meets `ok`, if from a state
in which `P` holds the steps that keep it are those that meet `ok`. -/
theorem Run.always_iff {P : S → Prop} {ok : S → L → Prop} (hinit : ∀ s, M.init s → P s)
    (hstep : ∀ s l s', M.Reached s → P s → M.step s l = some s' → (P s' ↔ ok s l))
    {trace : List (S × L)} {s : S} (h : M.Run trace s) :
    (P s ∧ ∀ x ∈ trace, P x.1) ↔ ∀ x ∈ trace, ok x.1 x.2 := by
  induction h with
  | init hs => simp [hinit _ hs]
  | @step trace s s' l hrun hl ih =>
      rw [List.forall_mem_cons, List.forall_mem_cons]
      constructor
      · rintro ⟨hlast, hs, hbefore⟩
        exact ⟨(hstep s l s' hrun.reached hs hl).1 hlast, ih.1 ⟨hs, hbefore⟩⟩
      · rintro ⟨hok, hbefore⟩
        obtain ⟨hs, hall⟩ := ih.2 hbefore
        exact ⟨(hstep s l s' hrun.reached hs hl).2 hok, hs, hall⟩

end Machine

end CppHttpd.Foundation
