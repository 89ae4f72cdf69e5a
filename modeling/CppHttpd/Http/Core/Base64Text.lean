import CppHttpd.Http.Core.Base64

/-!
# Base64 in a header

A client may break its credentials with whitespace and leave the padding out.
The decoder runs over the `int` of the machine, shifted to the right with its
sign; of what that leaves, a byte is all that is kept.
-/

namespace CppHttpd

open CppHttpd.Foundation

/-! ## The accumulator as an `int` -/

def decodeBase64Int (bits : Nat) (value : BitVec 32) (out : Bytes) : Bytes → Bytes
  | [] => out
  | c :: rest =>
      if isSpace c ∨ c = byteOf '=' then decodeBase64Int bits value out rest
      else
        match base64CharValue c with
        | none => []
        | some v =>
            let value := value <<< 6 ||| BitVec.ofNat 32 v
            let bits := bits + 6
            if bits ≥ 8 then
              let bits := bits - 8
              let byte := (value.sshiftRight bits &&& 0xff#32).setWidth 8
              decodeBase64Int bits value (out ++ [UInt8.ofBitVec byte]) rest
            else decodeBase64Int bits value out rest

theorem toBitVec_shift_or (value : UInt32) (v : Nat) :
    (value <<< 6 ||| UInt32.ofNat v).toBitVec = value.toBitVec <<< 6 ||| BitVec.ofNat 32 v := by
  rw [UInt32.toBitVec_or, UInt32.toBitVec_shiftLeft]
  rfl

theorem mask_bit {i : Nat} (hi : i < 8) : (0xff#8)[i] = true := by
  have hall : ∀ j : Fin 8, (0xff#8).getLsbD j.val = true := by decide
  rw [← BitVec.getLsbD_eq_getElem]
  exact hall ⟨i, hi⟩

/-- The sign does not reach the byte that is put out. -/
theorem sshiftRight_byte (value : UInt32) {k : Nat} (hk : k < 24) :
    (value.toBitVec.sshiftRight k &&& 0xff#32).setWidth 8 =
      (value >>> UInt32.ofNat k).toUInt8.toBitVec := by
  apply BitVec.eq_of_getLsbD_eq
  intro i hi
  have hmod : k % 32 = k := by omega
  have hlow : k + i < 32 := by omega
  have hword : ¬ 32 ≤ i := by omega
  simp [BitVec.getLsbD_sshiftRight, hi, mask_bit hi, hmod, hlow, hword]

theorem decodeBase64Int_eq (s : Bytes) {bits : Nat} (hbits : bits < 8) (value : UInt32)
    (out : Bytes) :
    decodeBase64Int bits value.toBitVec out s = decodeBase64Loop bits value out s := by
  induction s generalizing bits value out with
  | nil => rfl
  | cons c s ih =>
      rw [decodeBase64Int, decodeBase64Loop]
      split_ifs with hskip
      · exact ih hbits value out
      · cases base64CharValue c with
        | none => rfl
        | some v =>
            simp only [← toBitVec_shift_or]
            split_ifs with hfull
            · rw [sshiftRight_byte _ (by omega), ih (by omega)]
            · exact ih (by omega) _ _

/-! ## Characters that count -/

def base64Alphabet : Bytes := (List.range 64).map base64Char

def isPadding (c : Byte) : Bool := c = byteOf '='

def withoutSpaces (s : Bytes) : Bytes := s.filter fun c => !isSpace c

def withoutPadding (s : Bytes) : Bytes := s.filter fun c => !isPadding c

theorem base64CharValue_some {c : Byte} {v : Nat} (h : base64CharValue c = some v) :
    v < 64 ∧ base64Char v = c := by
  have hall : ∀ n : Fin 256, ∀ w ∈ base64CharValue (UInt8.ofNat n),
      w < 64 ∧ base64Char w = UInt8.ofNat n := by decide +kernel
  have hc := hall ⟨c.toNat, c.toNat_lt⟩ v
  simp only [UInt8.ofNat_toNat] at hc
  exact hc h

theorem mem_base64Alphabet {c : Byte} {v : Nat} (h : base64CharValue c = some v) :
    c ∈ base64Alphabet := by
  obtain ⟨hv, rfl⟩ := base64CharValue_some h
  exact List.mem_map_of_mem (List.mem_range.2 hv)

theorem base64CharValue_none {c : Byte} (h : c ∉ base64Alphabet) : base64CharValue c = none := by
  cases hvalue : base64CharValue c with
  | none => rfl
  | some v => exact absurd (mem_base64Alphabet hvalue) h

theorem decodeBase64Loop_skips {c : Byte} (h : isSpace c = true ∨ isPadding c = true)
    (bits : Nat) (value : UInt32) (out rest : Bytes) :
    decodeBase64Loop bits value out (c :: rest) = decodeBase64Loop bits value out rest := by
  rw [decodeBase64Loop, if_pos (by simpa [isPadding] using h)]

/-- Dropping characters that the loop skips changes nothing. -/
theorem decodeBase64Loop_filter {p : Byte → Bool}
    (hp : ∀ c, p c = false → isSpace c = true ∨ isPadding c = true) (s : Bytes) (bits : Nat)
    (value : UInt32) (out : Bytes) :
    decodeBase64Loop bits value out (s.filter p) = decodeBase64Loop bits value out s := by
  induction s generalizing bits value out with
  | nil => rfl
  | cons c s ih =>
      cases hc : p c with
      | false =>
          rw [List.filter_cons_of_neg (by simp [hc]), decodeBase64Loop_skips (hp c hc), ih]
      | true =>
          rw [List.filter_cons_of_pos hc, decodeBase64Loop, decodeBase64Loop]
          simp only [ih]

theorem decodeBase64_withoutSpaces (s : Bytes) :
    decodeBase64 (withoutSpaces s) = decodeBase64 s := by
  apply decodeBase64Loop_filter
  intro c hc
  exact .inl (by simpa using hc)

theorem decodeBase64_withoutPadding (s : Bytes) :
    decodeBase64 (withoutPadding s) = decodeBase64 s := by
  apply decodeBase64Loop_filter
  intro c hc
  exact .inr (by simpa using hc)

theorem decodeBase64Loop_bad {s : Bytes} {c : Byte} (hmem : c ∈ s) (hbad : c ∉ base64Alphabet)
    (hspace : isSpace c = false) (hpad : isPadding c = false) (bits : Nat) (value : UInt32)
    (out : Bytes) : decodeBase64Loop bits value out s = [] := by
  induction s generalizing bits value out with
  | nil => cases hmem
  | cons d s ih =>
      rcases List.mem_cons.1 hmem with rfl | hmem
      · have hskip : ¬ (isSpace c = true ∨ c = byteOf '=') := by
          simpa [hspace, isPadding] using hpad
        rw [decodeBase64Loop, if_neg hskip, base64CharValue_none hbad]
      · rw [decodeBase64Loop]
        split_ifs
        · exact ih hmem _ _ _
        · cases base64CharValue d with
          | none => rfl
          | some v =>
              dsimp only
              split_ifs
              · exact ih hmem _ _ _
              · exact ih hmem _ _ _

/--
The decoder undoes the encoding, padded or not, wherever whitespace has been put
in, and makes nothing of a text with a byte of any other kind.
-/
theorem decodeBase64_of_text (text : Bytes) :
    (∀ b, withoutSpaces text = encodeBase64 b ∨
        withoutSpaces text = withoutPadding (encodeBase64 b) →
      decodeBase64Int 0 0 [] text = b) ∧
      ∀ c ∈ text, c ∉ base64Alphabet → isSpace c = false → c ≠ byteOf '=' →
        decodeBase64Int 0 0 [] text = [] := by
  have hint : decodeBase64Int 0 0 [] text = decodeBase64 text :=
    decodeBase64Int_eq text (by omega) 0 []
  rw [hint]
  constructor
  · intro b htext
    rw [← decodeBase64_withoutSpaces]
    rcases htext with hpadded | hbare
    · rw [hpadded, decodeBase64_encodeBase64]
    · rw [hbare, decodeBase64_withoutPadding, decodeBase64_encodeBase64]
  · intro c hmem hbad hspace hpad
    exact decodeBase64Loop_bad hmem hbad hspace (by simpa [isPadding] using hpad) 0 0 []

/-- A user and password over two lines, without the padding. -/
theorem decodeBase64_of_text_broken :
    decodeBase64Int 0 0 [] (ascii "bWU6\r\n b3BlbiBzZXNhbWU") = ascii "me:open sesame" ∧
      decodeBase64Int 0 0 [] (ascii "bWU6b3Bl*biBzZXNhbWU=") = [] :=
  ⟨(decodeBase64_of_text _).1 (ascii "me:open sesame") (.inr (by decide)),
    (decodeBase64_of_text _).2 (byteOf '*') (by decide) (by decide) (by decide) (by decide)⟩

end CppHttpd
