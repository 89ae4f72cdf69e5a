import CppHttpd.Foundation.Numerals
import CppHttpd.Http.Core.HttpResponse

/-!
# Formatted output

What the C library writes into a buffer of fixed size.
-/

namespace CppHttpd

open CppHttpd.Foundation

/-- `%0*d`. -/
def zeroPadded (width n : Nat) : Bytes :=
  List.replicate (width - (toDecimal n).length) (byteOf '0') ++ toDecimal n

/-- The string that `snprintf` leaves in a buffer of that size. -/
def snprintf (size : Nat) (text : Bytes) : Bytes := text.take (size - 1)

theorem snprintf_of_lt {size : Nat} {text : Bytes} (h : text.length < size) :
    snprintf size text = text :=
  List.take_of_length_le (Nat.le_sub_one_of_lt h)

theorem snprintf_subset (size : Nat) (text : Bytes) : snprintf size text ⊆ text :=
  fun _ hmem => List.mem_of_mem_take hmem

/-! ## Numbers -/

theorem not_mem_intToDecimal {c : Byte} (h : isDigit c = false) (hsign : c ∉ ascii "-") (n : Int) :
    c ∉ HttpResponse.intToDecimal n := by
  unfold HttpResponse.intToDecimal
  split_ifs
  · rw [List.mem_append, not_or]
    exact ⟨hsign, not_mem_toDecimal h _⟩
  · exact not_mem_toDecimal h _

theorem length_intToDecimal_le_iff {n : Int} {k : Nat} (hk : 0 < k) :
    (HttpResponse.intToDecimal n).length ≤ k + 1 ↔ -10 ^ k < n ∧ n < 10 ^ (k + 1) := by
  have hcast : ∀ j, ((10 ^ j : Nat) : Int) = 10 ^ j := by simp
  unfold HttpResponse.intToDecimal
  split_ifs with hsign
  · have hdash : (ascii "-").length = 1 := rfl
    have hdigits := length_toDecimal_le_iff (n := n.natAbs) hk
    have hpower : (0 : Int) < 10 ^ (k + 1) := Int.pow_pos (by decide)
    rw [List.length_append, hdash, Nat.add_comm, Nat.add_le_add_iff_right, hdigits]
    specialize hcast k
    omega
  · have hdigits := length_toDecimal_le_iff (n := n.natAbs) k.succ_pos
    have hpower : (0 : Int) < 10 ^ k := Int.pow_pos (by decide)
    rw [hdigits]
    specialize hcast (k + 1)
    omega

theorem not_mem_zeroPadded {c : Byte} (h : isDigit c = false) (width n : Nat) :
    c ∉ zeroPadded width n := by
  rw [zeroPadded, List.mem_append, not_or]
  refine ⟨fun hmem => ?_, not_mem_toDecimal h n⟩
  rw [List.eq_of_mem_replicate hmem] at h
  revert h
  decide

theorem length_zeroPadded {n width : Nat} (hwidth : 0 < width) (h : n < 10 ^ width) :
    (zeroPadded width n).length = width := by
  have hle := (length_toDecimal_le_iff hwidth).2 h
  rw [zeroPadded, List.length_append, List.length_replicate]
  omega

theorem length_toHex_le {n k : Nat} (hk : 0 < k) (h : n < 16 ^ k) :
    (HttpResponse.toHex n).length ≤ k := by
  rw [HttpResponse.toHex, List.length_map]
  exact (Nat.length_toDigits_le_iff (by decide) hk).2 h

end CppHttpd
