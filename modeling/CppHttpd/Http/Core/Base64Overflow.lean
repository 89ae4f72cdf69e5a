import CppHttpd.Foundation.Numerals
import CppHttpd.Http.Core.Base64Text

/-!
# Overflow in the Base64 accumulator

Nothing is ever taken out of the accumulator, so it is the number that all the
characters so far write in base 64.  The sixth character that counts, at the
latest the seventh, is too much for an `int`.
-/

namespace CppHttpd

open CppHttpd.Foundation

def FitsInt (n : Int) : Prop := -2 ^ 31 ≤ n ∧ n < 2 ^ 31

instance (n : Int) : Decidable (FitsInt n) := inferInstanceAs (Decidable (_ ∧ _))

/--
What `(value << 6) | v` comes to at each character, before it is an `int` again.
The six low bits are free, so that the or is a sum.
-/
def decodeBase64Shifts (value : BitVec 32) : Bytes → List Int
  | [] => []
  | c :: rest =>
      if isSpace c ∨ c = byteOf '=' then decodeBase64Shifts value rest
      else
        match base64CharValue c with
        | none => []
        | some v =>
            (value.toInt * 2 ^ 6 + v) :: decodeBase64Shifts (value <<< 6 ||| BitVec.ofNat 32 v) rest

/-! ## The characters that are shifted in -/

def isSkipped (c : Byte) : Bool := isSpace c || isPadding c

/-- The characters in front of the first bad one, without those that are skipped. -/
def shiftedChars (s : Bytes) : Bytes :=
  (s.filter fun c => !isSkipped c).takeWhile base64Alphabet.contains

/-- A number written in base 64 that is less than `2 ^ 31`. -/
def ShortNumber (chars : Bytes) : Prop :=
  let chars := chars.dropWhile (· == byteOf 'A')
  chars.length ≤ 5 ∨ chars.length = 6 ∧ chars.head? = some (byteOf 'B')

instance (chars : Bytes) : Decidable (ShortNumber chars) :=
  inferInstanceAs (Decidable (_ ∨ _ ∧ _))

def charDigit (c : Byte) : Nat := (base64CharValue c).getD 0

theorem decodeBase64Shifts_skips {c : Byte} (hskip : isSkipped c = true) (value : BitVec 32)
    (rest : Bytes) : decodeBase64Shifts value (c :: rest) = decodeBase64Shifts value rest := by
  rw [decodeBase64Shifts, if_pos (by simpa [isSkipped, isPadding] using hskip)]

theorem base64CharValue_of_mem {c : Byte} (hc : c ∈ base64Alphabet) :
    base64CharValue c = some (charDigit c) ∧ charDigit c < 64 := by
  obtain ⟨v, hv, rfl⟩ := List.mem_map.1 hc
  have hvalue := (base64Char_spec ⟨v, List.mem_range.1 hv⟩).1
  rw [charDigit, hvalue]
  exact ⟨rfl, List.mem_range.1 hv⟩

theorem not_isSkipped_of_mem {c : Byte} (hc : c ∈ base64Alphabet) : isSkipped c = false := by
  obtain ⟨v, hv, rfl⟩ := List.mem_map.1 hc
  obtain ⟨-, hspace, hpad⟩ := base64Char_spec ⟨v, List.mem_range.1 hv⟩
  simp [isSkipped, isPadding, hspace, hpad]

theorem decodeBase64Shifts_char {c : Byte} (hc : c ∈ base64Alphabet) (value : BitVec 32)
    (rest : Bytes) :
    decodeBase64Shifts value (c :: rest) =
      (value.toInt * 2 ^ 6 + charDigit c) ::
        decodeBase64Shifts (value <<< 6 ||| BitVec.ofNat 32 (charDigit c)) rest := by
  have hskip := not_isSkipped_of_mem hc
  simp only [isSkipped, isPadding, Bool.or_eq_false_iff, decide_eq_false_iff_not] at hskip
  rw [decodeBase64Shifts, if_neg (by simp [hskip]), (base64CharValue_of_mem hc).1]

theorem decodeBase64Shifts_bad {c : Byte} (hskip : isSkipped c = false)
    (hbad : c ∉ base64Alphabet) (value : BitVec 32) (rest : Bytes) :
    decodeBase64Shifts value (c :: rest) = [] := by
  simp only [isSkipped, isPadding, Bool.or_eq_false_iff, decide_eq_false_iff_not] at hskip
  rw [decodeBase64Shifts, if_neg (by simp [hskip]), base64CharValue_none hbad]

theorem mem_shiftedChars {s : Bytes} {c : Byte} (hc : c ∈ shiftedChars s) :
    c ∈ base64Alphabet := by
  simpa using List.mem_takeWhile_imp hc

theorem decodeBase64Shifts_eq (s : Bytes) (value : BitVec 32) :
    decodeBase64Shifts value s = decodeBase64Shifts value (shiftedChars s) := by
  induction s generalizing value with
  | nil => rfl
  | cons c s ih =>
      cases hskip : isSkipped c with
      | true =>
          rw [decodeBase64Shifts_skips hskip, ih, shiftedChars, shiftedChars,
            List.filter_cons_of_neg (by simp [hskip])]
      | false =>
          rw [shiftedChars, List.filter_cons_of_pos (by simp [hskip])]
          by_cases hc : c ∈ base64Alphabet
          · rw [List.takeWhile_cons_of_pos (by simpa using hc), decodeBase64Shifts_char hc,
              decodeBase64Shifts_char hc, ih]
            rfl
          · rw [List.takeWhile_cons_of_neg (by simpa using hc),
              decodeBase64Shifts_bad hskip hc]
            rfl

/-! ## The accumulator as a number -/

theorem toNat_shift_or (value : BitVec 32) {v : Nat} (hv : v < 64) :
    (value <<< 6 ||| BitVec.ofNat 32 v).toNat = (value.toNat * 64 + v) % 2 ^ 32 := by
  have hword := shift_or_toNat (UInt32.ofBitVec value) hv
  rwa [UInt32.toNat, toBitVec_shift_or] at hword

theorem toInt_eq_toNat {value : BitVec 32} (hvalue : value.toNat < 2 ^ 31) :
    value.toInt = value.toNat := by
  rw [BitVec.toInt_eq_toNat_of_lt]
  omega

/-- From an accumulator that is in range: the shifts stay in range if the number does. -/
theorem forall_fitsInt_iff {chars : Bytes} (hchars : ∀ c ∈ chars, c ∈ base64Alphabet)
    {value : BitVec 32} (hvalue : value.toNat < 2 ^ 31) :
    (∀ n ∈ decodeBase64Shifts value chars, FitsInt n) ↔
      horner 64 value.toNat (chars.map charDigit) < 2 ^ 31 := by
  induction chars generalizing value with
  | nil => simpa [decodeBase64Shifts] using hvalue
  | cons c chars ih =>
      obtain ⟨hc, hrest⟩ := List.forall_mem_cons.1 hchars
      have hdigit := (base64CharValue_of_mem hc).2
      have hshift := toNat_shift_or value hdigit
      rw [decodeBase64Shifts_char hc, List.forall_mem_cons, List.map_cons, horner_cons,
        toInt_eq_toNat hvalue]
      by_cases hfits : value.toNat * 64 + charDigit c < 2 ^ 31
      · rw [Nat.mod_eq_of_lt (by omega)] at hshift
        rw [ih hrest (by omega), hshift, and_iff_right]
        exact ⟨by omega, by omega⟩
      · have hbase : 0 < 64 := by omega
        have hgrows := start_le_horner hbase (value.toNat * 64 + charDigit c)
          (chars.map charDigit)
        constructor
        · rintro ⟨⟨-, hhi⟩, -⟩
          omega
        · intro hsmall
          omega

theorem horner_leading (chars : Bytes) :
    horner 64 0 (chars.map charDigit) =
      horner 64 0 ((chars.dropWhile (· == byteOf 'A')).map charDigit) := by
  induction chars with
  | nil => rfl
  | cons c chars ih =>
      by_cases hc : c = byteOf 'A'
      · subst hc
        exact ih
      · rw [List.dropWhile_cons_of_neg (by simpa using hc)]

theorem charDigit_pos {c : Byte} (hc : c ∈ base64Alphabet) (hne : c ≠ byteOf 'A') :
    0 < charDigit c ∧ (charDigit c = 1 ↔ c = byteOf 'B') := by
  have hchar := (base64CharValue_some (base64CharValue_of_mem hc).1).2
  refine ⟨Nat.pos_of_ne_zero fun hzero => ?_, fun hone => ?_, ?_⟩
  · rw [hzero] at hchar
    exact hne hchar.symm
  · rw [hone] at hchar
    exact hchar.symm
  · rintro rfl
    rfl

/-- Without zeros in front, the number of characters and the first of them decide. -/
theorem horner_lt_iff {c : Byte} {chars : Bytes} (hc : c ∈ base64Alphabet)
    (hne : c ≠ byteOf 'A') (hchars : ∀ d ∈ chars, d ∈ base64Alphabet) :
    horner 64 0 ((c :: chars).map charDigit) < 2 ^ 31 ↔
      chars.length < 5 ∨ chars.length = 5 ∧ c = byteOf 'B' := by
  obtain ⟨hpos, hone⟩ := charDigit_pos hc hne
  have hdigits : ∀ d ∈ chars.map charDigit, d < 64 := by
    intro d hd
    obtain ⟨e, he, rfl⟩ := List.mem_map.1 hd
    exact (base64CharValue_of_mem (hchars e he)).2
  have hlow := le_horner 64 (charDigit c) (chars.map charDigit)
  have hhigh := horner_lt hdigits (charDigit c)
  have hmax : charDigit c + 1 ≤ 64 := (base64CharValue_of_mem hc).2
  rw [List.length_map] at hlow hhigh
  rw [List.map_cons, horner_cons, Nat.zero_mul, Nat.zero_add, ← hone]
  rcases Nat.lt_trichotomy chars.length 5 with hshort | hfive | hlong
  · have hpow : 64 ^ chars.length ≤ 64 ^ 4 := Nat.pow_le_pow_right (by omega) (by omega)
    have hbound := Nat.mul_le_mul hmax hpow
    constructor
    · exact fun _ => .inl hshort
    · intro _
      omega
  · rw [hfive] at hlow hhigh
    constructor
    · intro hsmall
      exact .inr ⟨hfive, by omega⟩
    · rintro (hshort | ⟨-, hdigit⟩)
      · omega
      · rw [hdigit] at hhigh ⊢
        omega
  · have hpow : 64 ^ 6 ≤ 64 ^ chars.length := Nat.pow_le_pow_right (by omega) (by omega)
    have hbound := Nat.mul_le_mul hpos hpow
    constructor
    · intro hsmall
      omega
    · rintro (hshort | ⟨hfive, -⟩) <;> omega

theorem horner_lt_iff_shortNumber {chars : Bytes} (hchars : ∀ c ∈ chars, c ∈ base64Alphabet) :
    horner 64 0 (chars.map charDigit) < 2 ^ 31 ↔ ShortNumber chars := by
  rw [horner_leading]
  simp only [ShortNumber]
  have hrest : ∀ c ∈ chars.dropWhile (· == byteOf 'A'), c ∈ base64Alphabet :=
    fun c hc => hchars c ((List.dropWhile_sublist _).subset hc)
  cases hdrop : chars.dropWhile (· == byteOf 'A') with
  | nil => simp
  | cons c rest =>
      rw [hdrop] at hrest
      obtain ⟨hc, hmore⟩ := List.forall_mem_cons.1 hrest
      have hne : c ≠ byteOf 'A' := by
        have hhead := List.head?_dropWhile_not (· == byteOf 'A') chars
        rw [hdrop] at hhead
        simpa using hhead
      rw [horner_lt_iff hc hne hmore]
      have hsix : rest.length + 1 = 6 ↔ rest.length = 5 := by omega
      simp only [List.length_cons, List.head?_cons, Option.some.injEq, Nat.add_one_le_iff, hsix]

/--
No shift leaves the range of an `int` exactly if the characters in front of the
first bad one, without spaces, padding and `A`s in front, are at most five, or
six of which the first is `B`.
-/
theorem decodeBase64_fits_iff (s : Bytes) :
    (∀ n ∈ decodeBase64Shifts 0 s, FitsInt n) ↔ ShortNumber (shiftedChars s) := by
  have hchars : ∀ c ∈ shiftedChars s, c ∈ base64Alphabet := fun c hc => mem_shiftedChars hc
  rw [decodeBase64Shifts_eq, forall_fitsInt_iff hchars (by decide)]
  exact horner_lt_iff_shortNumber hchars

/-- The credentials `me:open`, as a client sends them. -/
theorem decodeBase64_overflows :
    ¬ ∀ s, ∀ n ∈ decodeBase64Shifts 0 s, FitsInt n := by
  intro hall
  have hfits := hall (ascii "bWU6b3Blbg==")
  exact absurd hfits (by decide)

end CppHttpd
