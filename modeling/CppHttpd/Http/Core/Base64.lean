import CppHttpd.Http.Core.Htaccess
import Mathlib.Data.Nat.Bitwise

/-!
# Base64

What the decoder makes of the standard encoding, in which three bytes become four
characters and an incomplete group is padded.
-/

namespace CppHttpd

open CppHttpd.Foundation

/-! ## The encoding -/

def base64Char (v : Nat) : Byte :=
  if v < 26 then byteOf 'A' + UInt8.ofNat v
  else if v < 52 then byteOf 'a' + UInt8.ofNat (v - 26)
  else if v < 62 then byteOf '0' + UInt8.ofNat (v - 52)
  else if v = 62 then byteOf '+'
  else byteOf '/'

def encodeBase64 : Bytes → Bytes
  | [] => []
  | [a] => [base64Char (a.toNat / 4), base64Char (a.toNat % 4 * 16), byteOf '=', byteOf '=']
  | [a, b] =>
      [base64Char (a.toNat / 4), base64Char (a.toNat % 4 * 16 + b.toNat / 16),
        base64Char (b.toNat % 16 * 4), byteOf '=']
  | a :: b :: c :: rest =>
      base64Char (a.toNat / 4) :: base64Char (a.toNat % 4 * 16 + b.toNat / 16) ::
        base64Char (b.toNat % 16 * 4 + c.toNat / 64) :: base64Char (c.toNat % 64) ::
        encodeBase64 rest

/-! ## Characters -/

theorem base64Char_spec (v : Fin 64) :
    base64CharValue (base64Char v) = some v.val ∧ isSpace (base64Char v) = false ∧
      base64Char v ≠ byteOf '=' := by
  revert v
  decide

theorem isSpace_base64Char {v : Nat} (hv : v < 64) : isSpace (base64Char v) = false :=
  (base64Char_spec ⟨v, hv⟩).2.1

theorem isSpace_of_mem_encodeBase64 {s : Bytes} {c : Byte} (h : c ∈ encodeBase64 s) :
    isSpace c = false := by
  have hpad : isSpace (byteOf '=') = false := by decide
  induction s using encodeBase64.induct with
  | case1 => cases h
  | case2 a =>
      have ha := a.toNat_lt
      simp only [encodeBase64, List.mem_cons, List.not_mem_nil, or_false] at h
      rcases h with rfl | rfl | rfl | rfl
      · exact isSpace_base64Char (by omega)
      · exact isSpace_base64Char (by omega)
      · exact hpad
      · exact hpad
  | case3 a b =>
      have ha := a.toNat_lt
      have hb := b.toNat_lt
      simp only [encodeBase64, List.mem_cons, List.not_mem_nil, or_false] at h
      rcases h with rfl | rfl | rfl | rfl
      · exact isSpace_base64Char (by omega)
      · exact isSpace_base64Char (by omega)
      · exact isSpace_base64Char (by omega)
      · exact hpad
  | case4 a b d rest ih =>
      have ha := a.toNat_lt
      have hb := b.toNat_lt
      have hd := d.toNat_lt
      simp only [encodeBase64, List.mem_cons] at h
      rcases h with rfl | rfl | rfl | rfl | h
      · exact isSpace_base64Char (by omega)
      · exact isSpace_base64Char (by omega)
      · exact isSpace_base64Char (by omega)
      · exact isSpace_base64Char (by omega)
      · exact ih h

theorem encodeBase64_ne_nil {s : Bytes} (h : s ≠ []) : encodeBase64 s ≠ [] := by
  cases s using encodeBase64.fun_cases with
  | case1 => exact absurd rfl h
  | case2 a => exact List.cons_ne_nil _ _
  | case3 a b => exact List.cons_ne_nil _ _
  | case4 a b c rest => exact List.cons_ne_nil _ _

/-- The character adds six bits, and every byte that is complete is put out. -/
theorem decodeBase64Loop_char (bits : Nat) (value : UInt32) (out rest : Bytes) {v : Nat}
    (hv : v < 64) :
    decodeBase64Loop bits value out (base64Char v :: rest) =
      let value := value <<< 6 ||| UInt32.ofNat v
      if bits + 6 ≥ 8 then
        decodeBase64Loop (bits + 6 - 8) value
          (out ++ [(value >>> UInt32.ofNat (bits + 6 - 8)).toUInt8]) rest
      else decodeBase64Loop (bits + 6) value out rest := by
  obtain ⟨hvalue, hspace, hpad⟩ := base64Char_spec ⟨v, hv⟩
  rw [decodeBase64Loop, if_neg (by simp [hspace, hpad]), hvalue]

/-- The number that the characters so far come to, as far as 32 bits hold it. -/
theorem shift_or_toNat (value : UInt32) {v : Nat} (hv : v < 64) :
    (value <<< 6 ||| UInt32.ofNat v).toNat = (value.toNat * 64 + v) % 2 ^ 32 := by
  have hshift : (value <<< 6).toNat = (value.toNat % 2 ^ 26) <<< 6 := by
    rw [UInt32.toNat_shiftLeft, Nat.shiftLeft_eq, Nat.shiftLeft_eq]
    change value.toNat * 64 % 2 ^ 32 = value.toNat % 2 ^ 26 * 64
    omega
  rw [UInt32.toNat_or, hshift, UInt32.toNat_ofNat_of_lt' (by simp only [UInt32.size]; omega),
    ← Nat.shiftLeft_add_eq_or_of_lt (by omega), Nat.shiftLeft_eq]
  omega

theorem toUInt8_shift (value : UInt32) {k : Nat} (hk : k < 32) :
    (value >>> UInt32.ofNat k).toUInt8 = UInt8.ofNat (value.toNat / 2 ^ k) := by
  apply UInt8.toNat_inj.1
  rw [UInt32.toNat_toUInt8, UInt32.toNat_shiftRight, UInt8.toNat_ofNat',
    UInt32.toNat_ofNat_of_lt' (by simp only [UInt32.size]; omega), Nat.mod_eq_of_lt hk,
    Nat.shiftRight_eq_div_pow]

theorem ofNat_eq_byte {n : Nat} {a : Byte} (h : n % 256 = a.toNat) : UInt8.ofNat n = a := by
  apply UInt8.toNat_inj.1
  rw [UInt8.toNat_ofNat']
  exact h

/-! ## Groups -/

theorem decodeBase64Loop_two (value : UInt32) (out rest : Bytes) (a : Byte) {w : Nat}
    (hw : w < 16) :
    ∃ value' : UInt32, value'.toNat % 16 = w ∧
      decodeBase64Loop 0 value out
          (base64Char (a.toNat / 4) :: base64Char (a.toNat % 4 * 16 + w) :: rest) =
        decodeBase64Loop 4 value' (out ++ [a]) rest := by
  have ha := a.toNat_lt
  have hvalue := value.toNat_lt
  refine ⟨(value <<< 6 ||| UInt32.ofNat (a.toNat / 4)) <<< 6 |||
    UInt32.ofNat (a.toNat % 4 * 16 + w), ?_, ?_⟩
  · rw [shift_or_toNat _ (by omega)]
    omega
  · rw [decodeBase64Loop_char _ _ _ _ (by omega)]
    dsimp only
    rw [if_neg (by omega), decodeBase64Loop_char _ _ _ _ (by omega)]
    dsimp only
    rw [if_pos (by omega), toUInt8_shift _ (by omega), ofNat_eq_byte (a := a)]
    rw [shift_or_toNat _ (by omega), shift_or_toNat _ (by omega)]
    omega

theorem decodeBase64Loop_third {value : UInt32} (out rest : Bytes) (b : Byte) {w : Nat}
    (hvalue : value.toNat % 16 = b.toNat / 16) (hw : w < 4) :
    ∃ value' : UInt32, value'.toNat % 4 = w ∧
      decodeBase64Loop 4 value out (base64Char (b.toNat % 16 * 4 + w) :: rest) =
        decodeBase64Loop 2 value' (out ++ [b]) rest := by
  have hb := b.toNat_lt
  refine ⟨value <<< 6 ||| UInt32.ofNat (b.toNat % 16 * 4 + w), ?_, ?_⟩
  · rw [shift_or_toNat _ (by omega)]
    omega
  · rw [decodeBase64Loop_char _ _ _ _ (by omega)]
    dsimp only
    rw [if_pos (by omega), toUInt8_shift _ (by omega), ofNat_eq_byte (a := b)]
    rw [shift_or_toNat _ (by omega)]
    omega

theorem decodeBase64Loop_fourth {value : UInt32} (out rest : Bytes) (c : Byte)
    (hvalue : value.toNat % 4 = c.toNat / 64) :
    ∃ value' : UInt32, decodeBase64Loop 2 value out (base64Char (c.toNat % 64) :: rest) =
        decodeBase64Loop 0 value' (out ++ [c]) rest := by
  have hc := c.toNat_lt
  refine ⟨value <<< 6 ||| UInt32.ofNat (c.toNat % 64), ?_⟩
  rw [decodeBase64Loop_char _ _ _ _ (by omega)]
  dsimp only
  rw [if_pos (by omega), toUInt8_shift _ (by omega), ofNat_eq_byte (a := c)]
  rw [shift_or_toNat _ (by omega)]
  omega

theorem decodeBase64Loop_pad (bits : Nat) (value : UInt32) (out rest : Bytes) :
    decodeBase64Loop bits value out (byteOf '=' :: rest) =
      decodeBase64Loop bits value out rest := by
  rw [decodeBase64Loop, if_pos (Or.inr rfl)]

theorem decodeBase64Loop_encodeBase64 (s : Bytes) (value : UInt32) (out : Bytes) :
    decodeBase64Loop 0 value out (encodeBase64 s) = out ++ s := by
  induction s using encodeBase64.induct generalizing value out with
  | case1 => exact (List.append_nil out).symm
  | case2 a =>
      obtain ⟨value₁, -, htwo⟩ := decodeBase64Loop_two value out [byteOf '=', byteOf '='] a
        (w := 0) (by omega)
      rw [encodeBase64, ← Nat.add_zero (a.toNat % 4 * 16), htwo, decodeBase64Loop_pad,
        decodeBase64Loop_pad]
      rfl
  | case3 a b =>
      have hb := b.toNat_lt
      obtain ⟨value₁, hvalue₁, htwo⟩ := decodeBase64Loop_two value out
        [base64Char (b.toNat % 16 * 4), byteOf '='] a (w := b.toNat / 16) (by omega)
      obtain ⟨value₂, -, hthird⟩ := decodeBase64Loop_third (out ++ [a]) [byteOf '='] b hvalue₁
        (w := 0) (by omega)
      rw [encodeBase64, htwo, ← Nat.add_zero (b.toNat % 16 * 4), hthird, decodeBase64Loop_pad]
      simp [decodeBase64Loop]
  | case4 a b c rest ih =>
      have hb := b.toNat_lt
      have hc := c.toNat_lt
      obtain ⟨value₁, hvalue₁, htwo⟩ := decodeBase64Loop_two value out
        (base64Char (b.toNat % 16 * 4 + c.toNat / 64) :: base64Char (c.toNat % 64) ::
          encodeBase64 rest) a (w := b.toNat / 16) (by omega)
      obtain ⟨value₂, hvalue₂, hthird⟩ := decodeBase64Loop_third (out ++ [a])
        (base64Char (c.toNat % 64) :: encodeBase64 rest) b hvalue₁ (w := c.toNat / 64) (by omega)
      obtain ⟨value₃, hfourth⟩ := decodeBase64Loop_fourth (out ++ [a] ++ [b])
        (encodeBase64 rest) c hvalue₂
      rw [encodeBase64, htwo, hthird, hfourth, ih]
      simp

theorem decodeBase64_encodeBase64 (s : Bytes) : decodeBase64 (encodeBase64 s) = s :=
  decodeBase64Loop_encodeBase64 s 0 []

end CppHttpd
