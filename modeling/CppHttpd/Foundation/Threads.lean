import Mathlib.Algebra.BigOperators.Fin
import Mathlib.Algebra.Order.BigOperators.Group.Finset
import Mathlib.Data.Fintype.BigOperators

/-!
# Threads

The states of finitely many threads are a function, and a step of one of them
updates it at one place.  What all of them hold together is a sum, and such a
step changes the sum by what it changes in that thread.
-/

namespace CppHttpd.Foundation

variable {ι T : Type*} [Fintype ι]

/-- What the threads hold together. -/
def total (held : T → Nat) (threads : ι → T) : Nat := ∑ i, held (threads i)

variable {held : T → Nat} {threads : ι → T}

theorem total_eq_zero : total held threads = 0 ↔ ∀ i, held (threads i) = 0 := by
  simp [total]

theorem le_total (i : ι) : held (threads i) ≤ total held threads :=
  Finset.single_le_sum (f := fun i => held (threads i)) (fun _ _ => Nat.zero_le _)
    (Finset.mem_univ i)

variable [DecidableEq ι]

theorem total_update (held : T → Nat) (threads : ι → T) (i : ι) (t : T) :
    total held (Function.update threads i t) + held (threads i) =
      total held threads + held t := by
  have hrest : ∑ j ∈ Finset.univ.erase i, held (Function.update threads i t j) =
      ∑ j ∈ Finset.univ.erase i, held (threads j) :=
    Finset.sum_congr rfl fun j hj => by rw [Function.update_of_ne (Finset.ne_of_mem_erase hj)]
  have hbefore := Finset.add_sum_erase Finset.univ (fun j => held (threads j)) (Finset.mem_univ i)
  have hafter := Finset.add_sum_erase Finset.univ
    (fun j => held (Function.update threads i t j)) (Finset.mem_univ i)
  simp only [Function.update_self] at hafter
  unfold total
  omega

/-- A step that leaves what the thread holds leaves what all of them hold. -/
theorem total_update_same {i : ι} {t : T} (h : held t = held (threads i)) :
    total held (Function.update threads i t) = total held threads := by
  have hupdate := total_update held threads i t
  omega

/-- If the threads hold one thing together, exactly one of them holds it. -/
theorem existsUnique_of_total_eq_one (h : total held threads = 1) :
    ∃! i, held (threads i) = 1 := by
  obtain ⟨i, hi⟩ : ∃ i, held (threads i) ≠ 0 := by
    by_contra hnone
    simp only [not_exists, not_not] at hnone
    rw [total_eq_zero.2 hnone] at h
    cases h
  have hone : held (threads i) = 1 := by
    have hle : held (threads i) ≤ total held threads := le_total i
    omega
  refine ⟨i, hone, fun j hj => ?_⟩
  by_contra hne
  have hpair : held (threads i) + held (threads j) ≤ total held threads :=
    Finset.add_le_sum (f := fun i => held (threads i)) (fun _ _ => Nat.zero_le _)
      (Finset.mem_univ i) (Finset.mem_univ j) (Ne.symm hne)
  dsimp only at hj
  omega

end CppHttpd.Foundation
