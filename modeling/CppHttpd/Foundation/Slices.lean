import Mathlib.Data.List.Basic

/-!
# Slices

A slice of a list is named by the positions of its first and its last element.
Slices that adjoin, one after the other, are together one slice.
-/

namespace CppHttpd.Foundation

variable {α : Type*}

def slice (text : List α) (part : Nat × Nat) : List α :=
  (text.drop part.1).take (part.2 - part.1 + 1)

/-- Each part begins where the part before it ends, the first one at `start`. -/
inductive Adjoining : Nat → List (Nat × Nat) → Nat → Prop
  | nil (start : Nat) : Adjoining start [] start
  | cons {start last stop : Nat} {parts : List (Nat × Nat)} (hordered : start ≤ last)
      (hparts : Adjoining (last + 1) parts stop) : Adjoining start ((start, last) :: parts) stop

theorem Adjoining.le {start stop : Nat} {parts : List (Nat × Nat)}
    (h : Adjoining start parts stop) : start ≤ stop := by
  induction h with
  | nil start => exact Nat.le_refl start
  | cons hordered hparts ih => omega

theorem take_append_slice (text : List α) {start last : Nat} (hordered : start ≤ last) :
    text.take start ++ slice text (start, last) = text.take (last + 1) := by
  have hsize : last + 1 = start + (last - start + 1) := by omega
  rw [hsize, List.take_add]
  rfl

/-- What lies before the first part, and then the parts, is what lies before the end. -/
theorem Adjoining.take_append {start stop : Nat} {parts : List (Nat × Nat)}
    (h : Adjoining start parts stop) (text : List α) :
    text.take start ++ parts.flatMap (slice text) = text.take stop := by
  induction h with
  | nil start => exact List.append_nil _
  | cons hordered hparts ih =>
      rw [List.flatMap_cons, ← List.append_assoc, take_append_slice text hordered, ih]

/-- Parts that cover a list from its beginning to its end are the list. -/
theorem Adjoining.flatMap_slice {text : List α} {parts : List (Nat × Nat)}
    (h : Adjoining 0 parts text.length) : parts.flatMap (slice text) = text := by
  have htext := h.take_append text
  rwa [List.take_zero, List.nil_append, List.take_length] at htext

end CppHttpd.Foundation
