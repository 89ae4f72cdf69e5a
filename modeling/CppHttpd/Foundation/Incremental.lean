import Mathlib.Logic.Relation

/-!
# Incremental consumers

A consumer reads a stream that arrives in pieces.  Its configuration holds the
bytes that have arrived and are not consumed yet; `append` adds a piece at the
end, and `step` consumes some of what is held and may emit.  A consumer is
drained by taking steps until none is possible.

The question is whether the cuts between the pieces can be observed.  They
cannot where steps commute with `append` (`StableOn`): a step that is possible
now is the step that would have been taken with more of the stream at hand.

Where they do not, what happens is a matter of the cuts: `Receives` follows a
consumer through the pieces, which takes the next of them when it cannot step.
-/

namespace CppHttpd.Foundation

structure Consumer (C α ω : Type*) where
  append : C → List α → C
  append_nil : ∀ c, append c [] = c
  append_append : ∀ c xs ys, append (append c xs) ys = append c (xs ++ ys)
  step : C → Option (List ω × C)
  rank : C → Nat
  rank_lt : ∀ {c os c'}, step c = some (os, c') → rank c' < rank c

namespace Consumer

variable {C α ω : Type*} (M : Consumer C α ω)

inductive Steps : C → List ω → C → Prop
  | refl (c) : Steps c [] c
  | next {c os c' os' c''} :
      M.step c = some (os, c') → Steps c' os' c'' → Steps c (os ++ os') c''

def Reaches (c c' : C) : Prop := ∃ os, M.Steps c os c'

variable {M}

theorem Steps.trans {c os c' os' c''} (first : M.Steps c os c')
    (second : M.Steps c' os' c'') : M.Steps c (os ++ os') c'' := by
  induction first with
  | refl => exact second
  | next hstep _ ih =>
      rw [List.append_assoc]
      exact .next hstep (ih second)

theorem Steps.single {c os c'} (h : M.step c = some (os, c')) :
    M.Steps c os c' := by
  simpa using Steps.next h (.refl c')

theorem Steps.rank_le {c os c'} (h : M.Steps c os c') : M.rank c' ≤ M.rank c := by
  induction h with
  | refl => exact Nat.le_refl _
  | next hstep _ ih => exact Nat.le_trans ih (Nat.le_of_lt (M.rank_lt hstep))

theorem Reaches.refl (c : C) : M.Reaches c c := ⟨[], .refl c⟩

theorem Reaches.trans {c c' c''} (first : M.Reaches c c')
    (second : M.Reaches c' c'') : M.Reaches c c'' := by
  obtain ⟨os, hfirst⟩ := first
  obtain ⟨os', hsecond⟩ := second
  exact ⟨os ++ os', hfirst.trans hsecond⟩

theorem Reaches.of_step {c os c'} (h : M.step c = some (os, c')) :
    M.Reaches c c' := ⟨os, .single h⟩

variable (M)

/-- Take steps until none is possible. -/
def drain (c : C) : List ω × C :=
  match _h : M.step c with
  | none => ([], c)
  | some (os, c') =>
      let rest := drain c'
      (os ++ rest.1, rest.2)
  termination_by M.rank c
  decreasing_by exact M.rank_lt _h

variable {M}

theorem drain_of_none {c : C} (h : M.step c = none) : M.drain c = ([], c) := by
  rw [drain]
  split
  · rfl
  · rename_i heq
    rw [h] at heq
    cases heq

theorem drain_of_some {c os c'} (h : M.step c = some (os, c')) :
    M.drain c = (os ++ (M.drain c').1, (M.drain c').2) := by
  rw [drain]
  split
  · rename_i heq
    rw [h] at heq
    cases heq
  · rename_i heq
    rw [h] at heq
    cases heq
    rfl

theorem drain_step_eq_none (c : C) : M.step (M.drain c).2 = none := by
  induction hn : M.rank c using Nat.strongRecOn generalizing c with
  | ind n ih =>
      cases h : M.step c with
      | none => rw [drain_of_none h, h]
      | some r =>
          obtain ⟨os, c'⟩ := r
          rw [drain_of_some h]
          exact ih (M.rank c') (hn ▸ M.rank_lt h) c' rfl

theorem steps_drain (c : C) : M.Steps c (M.drain c).1 (M.drain c).2 := by
  induction hn : M.rank c using Nat.strongRecOn generalizing c with
  | ind n ih =>
      cases h : M.step c with
      | none =>
          rw [drain_of_none h]
          exact .refl c
      | some r =>
          obtain ⟨os, c'⟩ := r
          rw [drain_of_some h]
          exact .next h (ih (M.rank c') (hn ▸ M.rank_lt h) c' rfl)

theorem Steps.drain_eq {c os c'} (h : M.Steps c os c') :
    M.drain c = (os ++ (M.drain c').1, (M.drain c').2) := by
  induction h with
  | refl => simp
  | next hstep _ ih => rw [drain_of_some hstep, ih, List.append_assoc]

/-- Two runs from one configuration agree as far as the shorter one goes. -/
theorem Steps.comparable {c os c' os' c''} (first : M.Steps c os c')
    (second : M.Steps c os' c'') :
    (∃ more, M.Steps c' more c'' ∧ os' = os ++ more) ∨
      ∃ more, M.Steps c'' more c' ∧ os = os' ++ more := by
  induction first generalizing os' c'' with
  | refl => exact .inl ⟨os', second, rfl⟩
  | @next c os₁ c₁ os₂ c₂ hstep hrest ih =>
      cases second with
      | refl => exact .inr ⟨os₁ ++ os₂, .next hstep hrest, rfl⟩
      | next hstep' hrest' =>
          rw [hstep] at hstep'
          cases hstep'
          rcases ih hrest' with ⟨more, hmore, rfl⟩ | ⟨more, hmore, rfl⟩
          · exact .inl ⟨more, hmore, (List.append_assoc _ _ _).symm⟩
          · exact .inr ⟨more, hmore, (List.append_assoc _ _ _).symm⟩

/-! ## Stability under arriving data -/

variable (M)

/--
Steps commute with `append` as long as the configuration with the whole of the
stream at hand satisfies `ok`.
-/
structure StableOn (ok : C → Prop) : Prop where
  ok_step : ∀ {c os c'}, ok c → M.step c = some (os, c') → ok c'
  step_append : ∀ {c os c'} (xs : List α), ok (M.append c xs) →
    M.step c = some (os, c') → M.step (M.append c xs) = some (os, M.append c' xs)

variable {M} {ok : C → Prop}

theorem StableOn.ok_steps (S : M.StableOn ok) {c os c'} (h : M.Steps c os c')
    (hok : ok c) : ok c' := by
  induction h with
  | refl => exact hok
  | next hstep _ ih => exact ih (S.ok_step hok hstep)

theorem StableOn.steps_append (S : M.StableOn ok) {c os c'}
    (h : M.Steps c os c') (xs : List α) (hok : ok (M.append c xs)) :
    M.Steps (M.append c xs) os (M.append c' xs) := by
  induction h with
  | refl => exact .refl _
  | next hstep _ ih =>
      have happ := S.step_append xs hok hstep
      exact .next happ (ih (S.ok_step hok happ))

theorem StableOn.drain_append (S : M.StableOn ok) (c : C) (xs : List α)
    (hok : ok (M.append c xs)) :
    M.drain (M.append c xs) =
      ((M.drain c).1 ++ (M.drain (M.append (M.drain c).2 xs)).1,
        (M.drain (M.append (M.drain c).2 xs)).2) :=
  (S.steps_append (steps_drain c) xs hok).drain_eq

/-! ## Feeding piece by piece -/

variable (M) (halted : C → Prop) [DecidablePred halted]

/-- Deliver one piece: a halted consumer ignores it. -/
def feed (c : C) (xs : List α) : List ω × C :=
  if halted c then ([], c) else M.drain (M.append c xs)

def feedAll : C → List (List α) → List ω × C
  | c, [] => ([], c)
  | c, xs :: pieces =>
      let (os, c') := M.feed halted c xs
      let (os', c'') := feedAll c' pieces
      (os ++ os', c'')

variable {M halted}

theorem feedAll_of_halted {c : C} (h : halted c) (pieces : List (List α)) :
    M.feedAll halted c pieces = ([], c) := by
  induction pieces with
  | nil => rfl
  | cons xs pieces ih => simp [feedAll, feed, h, ih]

/--
However the stream is cut, feeding it emits what draining the whole of it emits,
and ends in a configuration with the same observation.
-/
theorem StableOn.feedAll_eq_drain (S : M.StableOn ok) {O : Type*}
    {observe : C → O}
    (halted_step : ∀ {c} (xs : List α), halted c → M.step (M.append c xs) = none)
    (halted_observe : ∀ {c} (xs : List α), halted c →
      observe (M.append c xs) = observe c)
    (pieces : List (List α)) {c : C} (hdrained : M.step c = none)
    (hok : ok (M.append c pieces.flatten)) :
    (M.feedAll halted c pieces).1 = (M.drain (M.append c pieces.flatten)).1 ∧
      observe (M.feedAll halted c pieces).2 =
        observe (M.drain (M.append c pieces.flatten)).2 := by
  induction pieces generalizing c with
  | nil =>
      simp [feedAll, M.append_nil, drain_of_none hdrained]
  | cons xs pieces ih =>
      by_cases hh : halted c
      · have hnone := halted_step (xs :: pieces).flatten hh
        rw [feedAll_of_halted hh, drain_of_none hnone]
        exact ⟨rfl, (halted_observe _ hh).symm⟩
      · rw [List.flatten_cons, ← M.append_append] at hok ⊢
        have hearly := S.drain_append (M.append c xs) pieces.flatten hok
        have hok' : ok (M.append (M.drain (M.append c xs)).2 pieces.flatten) :=
          S.ok_steps (S.steps_append (steps_drain _) _ hok) hok
        obtain ⟨hout, hobs⟩ := ih (drain_step_eq_none _) hok'
        rw [hearly]
        simp only [feedAll, feed, hh, if_false]
        exact ⟨by rw [hout], hobs⟩

/-! ## Step by step through the pieces -/

variable (M halted)

inductive Receives : C → List (List α) → List ω → C → List (List α) → Prop
  | refl (c pieces) : Receives c pieces [] c pieces
  | step {c pieces os c' os' c'' pieces'} : M.step c = some (os, c') →
      Receives c' pieces os' c'' pieces' → Receives c pieces (os ++ os') c'' pieces'
  | take {c xs pieces os c' pieces'} : M.step c = none → ¬ halted c →
      Receives (M.append c xs) pieces os c' pieces' →
      Receives c (xs :: pieces) os c' pieces'

/-- The first step, and the pieces that have not been taken for it. -/
def next (c : C) : List (List α) → Option (List ω × C × List (List α))
  | [] => (M.step c).map fun r => (r.1, r.2, [])
  | xs :: pieces =>
      match M.step c with
      | some (os, c') => some (os, c', xs :: pieces)
      | none => if halted c then none else next (M.append c xs) pieces

/-- What is emitted from here on, and the configuration in the end. -/
def finish (c : C) (pieces : List (List α)) : List ω × C :=
  ((M.drain c).1 ++ (M.feedAll halted (M.drain c).2 pieces).1,
    (M.feedAll halted (M.drain c).2 pieces).2)

variable {M halted}

omit [DecidablePred halted] in
theorem Receives.single {c os c'} (h : M.step c = some (os, c')) (pieces : List (List α)) :
    M.Receives halted c pieces os c' pieces := by
  simpa using Receives.step h (Receives.refl c' pieces)

omit [DecidablePred halted] in
theorem Receives.trans {c pieces os c' pieces' os' c'' pieces''}
    (first : M.Receives halted c pieces os c' pieces')
    (second : M.Receives halted c' pieces' os' c'' pieces'') :
    M.Receives halted c pieces (os ++ os') c'' pieces'' := by
  induction first with
  | refl => exact second
  | step hstep _ ih =>
      rw [List.append_assoc]
      exact .step hstep (ih second)
  | take hnone hlive _ ih => exact .take hnone hlive (ih second)

theorem next_of_some {c os c'} (h : M.step c = some (os, c')) (pieces : List (List α)) :
    M.next halted c pieces = some (os, c', pieces) := by
  cases pieces <;> simp [next, h]

theorem next_take {c : C} (hnone : M.step c = none) (hlive : ¬ halted c) (xs : List α)
    (pieces : List (List α)) :
    M.next halted c (xs :: pieces) = M.next halted (M.append c xs) pieces := by
  simp [next, hnone, hlive]

theorem receives_of_next {c : C} {pieces : List (List α)} {os c' pieces'}
    (h : M.next halted c pieces = some (os, c', pieces')) :
    M.Receives halted c pieces os c' pieces' := by
  induction pieces generalizing c with
  | nil =>
      cases hstep : M.step c with
      | none => simp [next, hstep] at h
      | some r =>
          simp only [next, hstep, Option.map_some, Option.some.injEq, Prod.mk.injEq] at h
          obtain ⟨rfl, rfl, rfl⟩ := h
          exact .single hstep []
  | cons xs pieces ih =>
      cases hstep : M.step c with
      | none =>
          by_cases hhalted : halted c
          · simp [next, hstep, hhalted] at h
          · rw [next_take hstep hhalted] at h
            exact .take hstep hhalted (ih h)
      | some r =>
          rw [next_of_some hstep] at h
          cases h
          exact .single hstep _

theorem finish_of_none {c : C} (h : M.step c = none) (pieces : List (List α)) :
    M.finish halted c pieces = M.feedAll halted c pieces := by
  rw [finish, drain_of_none h]
  rfl

theorem finish_of_some {c os c'} (h : M.step c = some (os, c')) (pieces : List (List α)) :
    M.finish halted c pieces =
      (os ++ (M.finish halted c' pieces).1, (M.finish halted c' pieces).2) := by
  simp only [finish, drain_of_some h, List.append_assoc]

theorem Receives.finish_eq {c : C} {pieces : List (List α)} {os c' pieces'}
    (h : M.Receives halted c pieces os c' pieces') :
    M.finish halted c pieces =
      (os ++ (M.finish halted c' pieces').1, (M.finish halted c' pieces').2) := by
  induction h with
  | refl => rfl
  | step hstep _ ih =>
      rw [finish_of_some hstep, ih, List.append_assoc]
  | take hnone hlive _ ih =>
      rw [← ih, finish_of_none hnone]
      simp only [feedAll, feed, hlive, if_false]
      rfl

theorem finish_of_halted {c : C} (hnone : M.step c = none) (h : halted c)
    (pieces : List (List α)) : M.finish halted c pieces = ([], c) := by
  rw [finish_of_none hnone, feedAll_of_halted h]

end Consumer

end CppHttpd.Foundation
