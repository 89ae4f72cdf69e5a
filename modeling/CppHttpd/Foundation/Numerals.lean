import CppHttpd.Foundation.Bytes

/-!
# Numerals

Numbers in positional notation, and the text that `std::stoull` and `std::stoll`
read a number from: blanks, a sign, digits, and then whatever follows them.
-/

namespace CppHttpd.Foundation

/-! ## Positional numerals -/

/-- The digits, most significant first, written behind the number `start`. -/
def horner (base start : Nat) (digits : List Nat) : Nat :=
  digits.foldl (fun n d => n * base + d) start

@[simp] theorem horner_nil (base start : Nat) : horner base start [] = start := rfl

@[simp] theorem horner_cons (base start d : Nat) (digits : List Nat) :
    horner base start (d :: digits) = horner base (start * base + d) digits := rfl

theorem le_horner (base start : Nat) (digits : List Nat) :
    start * base ^ digits.length ≤ horner base start digits := by
  induction digits generalizing start with
  | nil => simp
  | cons d digits ih =>
      calc start * base ^ (digits.length + 1)
          = start * base * base ^ digits.length := by rw [Nat.pow_succ']; ac_rfl
        _ ≤ (start * base + d) * base ^ digits.length :=
            Nat.mul_le_mul_right _ (Nat.le_add_right _ _)
        _ ≤ horner base start (d :: digits) := ih _

theorem horner_lt {base : Nat} {digits : List Nat} (hdigits : ∀ d ∈ digits, d < base)
    (start : Nat) : horner base start digits < (start + 1) * base ^ digits.length := by
  induction digits generalizing start with
  | nil => simp
  | cons d digits ih =>
      obtain ⟨hd, hrest⟩ := List.forall_mem_cons.1 hdigits
      have hstart : start * base + d + 1 ≤ (start + 1) * base := by
        rw [Nat.add_one_mul]
        omega
      calc horner base start (d :: digits)
          < (start * base + d + 1) * base ^ digits.length := ih hrest _
        _ ≤ (start + 1) * base * base ^ digits.length := Nat.mul_le_mul_right _ hstart
        _ = (start + 1) * base ^ (digits.length + 1) := by rw [Nat.pow_succ']; ac_rfl

theorem start_le_horner {base : Nat} (hbase : 0 < base) (start : Nat) (digits : List Nat) :
    start ≤ horner base start digits :=
  (Nat.le_mul_of_pos_right start (Nat.pow_pos hbase)).trans (le_horner base start digits)

/-! ## Decimal numerals in text -/

inductive Sign where
  | absent
  | plus
  | minus
  deriving DecidableEq, Repr

def Sign.toBytes : Sign → Bytes
  | .absent => []
  | .plus => [43]
  | .minus => [45]

structure Numeral where
  blanks : Bytes
  sign : Sign
  digits : Bytes
  rest : Bytes
  blanks_space : ∀ c ∈ blanks, isSpace c = true
  digits_ne_nil : digits ≠ []
  digits_digit : ∀ c ∈ digits, isDigit c = true
  rest_ends : ∀ c ∈ rest.head?, isDigit c = false

namespace Numeral

def toBytes (m : Numeral) : Bytes := m.blanks ++ (m.sign.toBytes ++ (m.digits ++ m.rest))

/-- The number modulo `2 ^ 64`. -/
def value (m : Numeral) : Nat :=
  match m.sign with
  | .minus => (2 ^ 64 - digitsValue m.digits) % 2 ^ 64
  | _ => digitsValue m.digits

/-- The text is a numeral whose digits do not overflow. -/
def Reads (s : Bytes) (n : Nat) : Prop :=
  ∃ m : Numeral, m.toBytes = s ∧ digitsValue m.digits < 2 ^ 64 ∧ m.value = n

theorem isSpace_of_isDigit {c : Byte} (h : isDigit c = true) : isSpace c = false := by
  simp only [isDigit, Bool.and_eq_true, decide_eq_true_eq, UInt8.le_iff_toNat_le] at h
  simp only [isSpace, Bool.or_eq_false_iff, beq_eq_false_iff_ne, Bool.and_eq_false_iff,
    decide_eq_false_iff_not, UInt8.le_iff_toNat_le]
  obtain ⟨hlo, -⟩ := h
  simp only [UInt8.reduceToNat] at hlo ⊢
  refine ⟨?_, Or.inr (by omega)⟩
  rintro rfl
  simp at hlo

theorem takeWhile_digits {digits rest : Bytes} (hdigits : ∀ c ∈ digits, isDigit c = true)
    (hrest : ∀ c ∈ rest.head?, isDigit c = false) :
    (digits ++ rest).takeWhile isDigit = digits := by
  rw [List.takeWhile_append_of_pos hdigits]
  cases rest with
  | nil => exact List.append_nil _
  | cons c rest => rw [List.takeWhile_cons_of_neg (by simp [hrest c rfl]), List.append_nil]

theorem readDigits_toBytes (m : Numeral) :
    readDigits m.toBytes = (decide (m.sign = .minus), m.digits) := by
  have htake := takeWhile_digits m.digits_digit m.rest_ends
  have hblanks (t : Bytes) (ht : ∀ c ∈ t.head?, isSpace c = false) :
      (m.blanks ++ t).dropWhile isSpace = t := by
    rw [List.dropWhile_append_of_pos m.blanks_space]
    cases t with
    | nil => rfl
    | cons c t => exact List.dropWhile_cons_of_neg (by simp [ht c rfl])
  unfold readDigits toBytes
  cases hsign : m.sign with
  | absent =>
      obtain ⟨d, ds, hds⟩ := List.exists_cons_of_ne_nil m.digits_ne_nil
      have hd : isDigit d = true := m.digits_digit d (by simp [hds])
      rw [hblanks _ (by simp [Sign.toBytes, hds, isSpace_of_isDigit hd])]
      simp only [Sign.toBytes, List.nil_append]
      split
      · rename_i heq
        rw [hds] at heq
        cases heq
        cases hd
      · rename_i heq
        rw [hds] at heq
        cases heq
        cases hd
      · rw [htake]
        rfl
  | plus =>
      rw [hblanks _ (by simp [Sign.toBytes, isSpace])]
      simp only [Sign.toBytes, List.cons_append, List.nil_append, htake]
      rfl
  | minus =>
      rw [hblanks _ (by simp [Sign.toBytes, isSpace])]
      simp only [Sign.toBytes, List.cons_append, List.nil_append, htake]
      rfl

theorem dropWhile_ne_nil (m : Numeral) : m.toBytes.dropWhile isSpace ≠ [] := by
  intro hnil
  have hdigits := m.readDigits_toBytes
  rw [readDigits, hnil] at hdigits
  exact m.digits_ne_nil (congrArg Prod.snd hdigits).symm

theorem exists_of_readDigits {s : Bytes} (h : (readDigits s).2 ≠ []) :
    ∃ m : Numeral, m.toBytes = s := by
  have hspace : ∀ c ∈ s.takeWhile isSpace, isSpace c = true := fun c hc =>
    List.mem_takeWhile_imp hc
  have hdigit (t : Bytes) : ∀ c ∈ t.takeWhile isDigit, isDigit c = true := fun c hc =>
    List.mem_takeWhile_imp hc
  have hrest (t : Bytes) : ∀ c ∈ (t.dropWhile isDigit).head?, isDigit c = false := by
    intro c hc
    have := List.head?_dropWhile_not isDigit t
    rw [Option.mem_def.1 hc] at this
    simpa using this
  unfold readDigits at h
  have hparts (sign : Sign) (t : Bytes) (ht : s.dropWhile isSpace = sign.toBytes ++ t)
      (hne : t.takeWhile isDigit ≠ []) : ∃ m : Numeral, m.toBytes = s :=
    ⟨⟨_, sign, _, _, hspace, hne, hdigit t, hrest t⟩, by
      rw [toBytes, List.takeWhile_append_dropWhile, ← ht, List.takeWhile_append_dropWhile]⟩
  split at h
  · exact hparts .minus _ ‹_› h
  · exact hparts .plus _ ‹_› h
  · exact hparts .absent _ rfl h

theorem stoull_eq_ok_iff {s : Bytes} {n : Nat} : stoull s = .ok n ↔ Reads s n := by
  constructor
  · intro h
    have hne : (readDigits s).2 ≠ [] := by
      intro hempty
      simp [stoull, hempty] at h
    obtain ⟨m, rfl⟩ := exists_of_readDigits hne
    refine ⟨m, rfl, ?_⟩
    simp only [stoull, readDigits_toBytes, m.digits_ne_nil, if_false, decide_eq_true_eq] at h
    split_ifs at h with hrange hminus
    · cases h
      exact ⟨by omega, by simp [value, hminus]⟩
    · cases h
      refine ⟨by omega, ?_⟩
      cases hsign : m.sign with
      | minus => exact absurd hsign hminus
      | absent => simp [value, hsign]
      | plus => simp [value, hsign]
  · rintro ⟨m, rfl, hrange, rfl⟩
    simp only [stoull, readDigits_toBytes, m.digits_ne_nil, if_false, decide_eq_true_eq,
      Nat.not_le.2 hrange]
    cases hsign : m.sign <;> simp [value, hsign]

/-- The number itself. -/
def signedValue (m : Numeral) : Int :=
  if m.sign = .minus then -digitsValue m.digits else digitsValue m.digits

theorem stoll_toBytes (m : Numeral) :
    stoll m.toBytes =
      if m.signedValue < -2 ^ 63 ∨ 2 ^ 63 ≤ m.signedValue then .error .outOfRange
      else .ok m.signedValue := by
  unfold stoll signedValue
  rw [readDigits_toBytes]
  by_cases hsign : m.sign = .minus
  · simp only [hsign, m.digits_ne_nil, decide_true, if_true, if_false]
  · simp only [hsign, m.digits_ne_nil, decide_false, Bool.false_eq_true, if_false]

theorem stoll_eq_ok_iff {s : Bytes} {n : Int} :
    stoll s = .ok n ↔
      ∃ m : Numeral, m.toBytes = s ∧ m.signedValue = n ∧ -2 ^ 63 ≤ n ∧ n < 2 ^ 63 := by
  constructor
  · intro h
    have hne : (readDigits s).2 ≠ [] := by
      intro hempty
      simp [stoll, hempty] at h
    obtain ⟨m, rfl⟩ := exists_of_readDigits hne
    rw [stoll_toBytes] at h
    split_ifs at h with hrange
    cases h
    refine ⟨m, rfl, rfl, ?_⟩
    omega
  · rintro ⟨m, rfl, rfl, hlo, hhi⟩
    rw [stoll_toBytes, if_neg]
    omega

theorem Reads.ne_nil {s : Bytes} {n : Nat} (h : Reads s n) : s ≠ [] := by
  rintro rfl
  cases stoull_eq_ok_iff.2 h

theorem reads_of_decimalValue {s : Bytes} {n : Nat} (h : decimalValue s = some n)
    (hn : n < 2 ^ 64) : Reads s n := by
  unfold decimalValue at h
  split_ifs at h with hs
  cases h
  exact ⟨⟨[], .absent, s, [], by simp, hs.1, by simpa using hs.2, by simp⟩,
    by simp [toBytes, Sign.toBytes], hn, rfl⟩

end Numeral

/-! ## Written numbers -/

theorem all_isDigit_toDecimal (n : Nat) : (toDecimal n).all isDigit = true := by
  have hvalue := decimalValue_toDecimal n
  unfold decimalValue at hvalue
  split_ifs at hvalue with hdigits
  exact hdigits.2

theorem toDecimal_ne_nil (n : Nat) : toDecimal n ≠ [] := by
  intro hempty
  have hvalue := decimalValue_toDecimal n
  rw [hempty] at hvalue
  cases hvalue

theorem length_toDecimal_le_iff {n k : Nat} (hk : 0 < k) :
    (toDecimal n).length ≤ k ↔ n < 10 ^ k := by
  rw [toDecimal, List.length_map]
  exact Nat.length_toDigits_le_iff (by decide) hk

theorem length_toDecimal {n : Nat} (hlo : 100 ≤ n) (hhi : n ≤ 999) :
    (toDecimal n).length = 3 := by
  have hle := length_toDecimal_le_iff (n := n) (k := 3) (by decide)
  have hlt := length_toDecimal_le_iff (n := n) (k := 2) (by decide)
  omega

theorem isDigit_of_mem_toDecimal {n : Nat} {c : Byte} (h : c ∈ toDecimal n) :
    isDigit c = true :=
  List.all_eq_true.1 (all_isDigit_toDecimal n) c h

theorem not_mem_of_all_digits {c : Byte} (h : isDigit c = false) {digits : Bytes}
    (hdigits : digits.all isDigit = true) : c ∉ digits := by
  intro hmem
  have hdigit := List.all_eq_true.1 hdigits c hmem
  rw [h] at hdigit
  cases hdigit

theorem not_mem_toDecimal {c : Byte} (h : isDigit c = false) (n : Nat) : c ∉ toDecimal n :=
  not_mem_of_all_digits h (all_isDigit_toDecimal n)

theorem digitsValue_toDecimal (n : Nat) : digitsValue (toDecimal n) = n := by
  have hvalue := decimalValue_toDecimal n
  unfold decimalValue at hvalue
  split_ifs at hvalue with hdigits
  exact Option.some.inj hvalue

end CppHttpd.Foundation
