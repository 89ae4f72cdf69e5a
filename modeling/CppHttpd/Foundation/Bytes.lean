import Mathlib.Algebra.Group.Int.Defs
import Mathlib.Algebra.Group.Nat.Defs
import Mathlib.Data.List.Basic
import Mathlib.Data.List.DropRight
import Mathlib.Data.List.Induction
import Mathlib.Data.List.TakeDrop
import Mathlib.Data.List.TakeWhile

/-!
# Byte strings

`std::string` is a sequence of arbitrary bytes.  The searching, cutting and
number-reading operations of the C++ standard library that the server relies on
are given here with the values the standard prescribes.  An operation that
throws on a bad position takes the proof that its position is good.
-/

namespace CppHttpd.Foundation

abbrev Byte := UInt8

abbrev Bytes := List Byte

def byteOf (c : Char) : Byte := UInt8.ofNat c.toNat

def ascii (text : String) : Bytes := text.toList.map byteOf

abbrev NUL : Byte := 0
abbrev TAB : Byte := 9
abbrev LF : Byte := 10
abbrev CR : Byte := 13
abbrev SP : Byte := 32
abbrev COMMA : Byte := 44
abbrev DASH : Byte := 45
abbrev DOT : Byte := 46
abbrev SLASH : Byte := 47
abbrev COLON : Byte := 58
abbrev SEMICOLON : Byte := 59
abbrev QUESTION : Byte := 63

theorem forall_mem_of_all {s : Bytes} {p : Byte → Prop} [DecidablePred p]
    (h : s.all (fun c => decide (p c)) = true) : ∀ c ∈ s, p c := by simpa using h

theorem contains_eq_false {set : Bytes} {p : Byte → Prop} (hset : ∀ c ∈ set, p c) {c : Byte}
    (hc : ¬ p c) : set.contains c = false := by
  have hmem : c ∉ set := fun hmem => hc (hset c hmem)
  simpa using hmem

/-! ## Searching -/

/-- `s.find(c, start)`; `none` is `npos`. -/
def find (s : Bytes) (c : Byte) (start : Nat) : Option Nat :=
  ((s.drop start).idxOf? c).map (start + ·)

/-- `s.rfind(c)`. -/
def rfind (s : Bytes) (c : Byte) : Option Nat :=
  (s.reverse.idxOf? c).map (s.length - 1 - ·)

/-- `s.find(pattern)`. -/
def findSub (pattern : Bytes) : Bytes → Option Nat
  | [] => if pattern.isPrefixOf [] then some 0 else none
  | c :: s =>
      if pattern.isPrefixOf (c :: s) then some 0
      else (findSub pattern s).map (· + 1)

theorem idxOf?_append_cons {c : Byte} {s : Bytes} (h : c ∉ s) (t : Bytes) :
    (s ++ c :: t).idxOf? c = some s.length := by
  induction s with
  | nil => simp [List.idxOf?_cons]
  | cons d s ih =>
      have hd : (d == c) = false := by
        simpa using fun e : d = c => h (by simp [e])
      have hs : c ∉ s := fun m => h (List.mem_cons_of_mem _ m)
      simp [List.idxOf?_cons, hd, ih hs]

theorem find_zero (s : Bytes) (c : Byte) : find s c 0 = s.idxOf? c := by
  cases h : s.idxOf? c <;> simp [find, h]

theorem find_none {s : Bytes} {c : Byte} (h : c ∉ s) : find s c 0 = none := by
  rw [find_zero]
  simpa using h

theorem find_append_cons {c : Byte} {s : Bytes} (h : c ∉ s) (t : Bytes) :
    find (s ++ c :: t) c 0 = some s.length := by
  rw [find_zero, idxOf?_append_cons h]

/-- A text is cut at the first separator in one way only. -/
theorem append_cons_inj {c : Byte} {s t a b : Bytes} (hs : c ∉ s) (ht : c ∉ t)
    (h : s ++ c :: a = t ++ c :: b) : s = t ∧ a = b := by
  have hlen : s.length = t.length := by
    apply Option.some.inj
    rw [← find_append_cons hs a, h, find_append_cons ht]
  obtain ⟨hfront, hback⟩ := List.append_inj h hlen
  exact ⟨hfront, (List.cons.inj hback).2⟩

theorem takeWhile_ne_append {c : Byte} {s : Bytes} (h : c ∉ s) (t : Bytes) :
    (s ++ t).takeWhile (· ≠ c) = s ++ t.takeWhile (· ≠ c) := by
  apply List.takeWhile_append_of_pos
  intro d hd
  simpa using fun heq : d = c => h (heq ▸ hd)

theorem takeWhile_ne_eq_self {c : Byte} {s : Bytes} (h : c ∉ s) :
    s.takeWhile (· ≠ c) = s := by
  have happend := takeWhile_ne_append h []
  rwa [List.takeWhile_nil, List.append_nil] at happend

theorem find_eq_none_iff {s : Bytes} {c : Byte} {start : Nat} :
    find s c start = none ↔ c ∉ s.drop start := by
  simp [find]

theorem find_lt {s : Bytes} {c : Byte} {start i : Nat}
    (h : find s c start = some i) : i < s.length := by
  simp only [find, Option.map_eq_some_iff] at h
  obtain ⟨j, hj, rfl⟩ := h
  obtain ⟨hlt, -⟩ := List.idxOf?_eq_some_iff.mp hj
  simp only [List.length_drop] at hlt
  omega

theorem find_split {s : Bytes} {c : Byte} {i : Nat}
    (h : find s c 0 = some i) :
    s = s.take i ++ c :: s.drop (i + 1) ∧ c ∉ s.take i := by
  rw [find_zero] at h
  obtain ⟨hlt, heq, hfirst⟩ := List.idxOf?_eq_some_iff.mp h
  constructor
  · conv_lhs => rw [← List.take_append_drop i s]
    rw [List.drop_eq_getElem_cons hlt, heq]
  · intro hmem
    obtain ⟨j, hj, hget⟩ := List.mem_iff_getElem.mp hmem
    simp only [List.length_take] at hj
    rw [List.getElem_take] at hget
    exact hfirst j (by omega) hget

theorem rdropWhile_append_cons {p : Byte → Bool} {c : Byte} (hc : p c = false) (s t : Bytes) :
    (s ++ c :: t).rdropWhile p = s ++ c :: t.rdropWhile p := by
  induction t using List.reverseRecOn with
  | nil => rw [List.rdropWhile_concat_neg _ _ _ (by simp [hc]), List.rdropWhile_nil]
  | append_singleton t d ih =>
      rw [← List.cons_append, ← List.append_assoc, List.rdropWhile_concat,
        List.rdropWhile_concat, ih]
      split_ifs <;> simp

/-- The bytes up to a separator, and the bytes behind it. -/
def cutAt (c : Byte) (s : Bytes) : Option (Bytes × Bytes) :=
  (s.idxOf? c).map fun i => (s.take i, s.drop (i + 1))

/-- The bytes behind a text that has to stand here. -/
def expect (text s : Bytes) : Option Bytes :=
  if text <+: s then some (s.drop text.length) else none

theorem cutAt_eq_some_iff {c : Byte} {s a b : Bytes} :
    cutAt c s = some (a, b) ↔ c ∉ a ∧ s = a ++ c :: b := by
  constructor
  · intro h
    obtain ⟨i, hi, heq⟩ := Option.map_eq_some_iff.1 h
    obtain ⟨rfl, rfl⟩ := Prod.mk.inj heq
    have hsplit := find_split (s := s) (c := c) (i := i) (by rw [find_zero, hi])
    exact ⟨hsplit.2, hsplit.1⟩
  · rintro ⟨ha, rfl⟩
    rw [cutAt, idxOf?_append_cons ha]
    simp

theorem expect_eq_some_iff {text s rest : Bytes} :
    expect text s = some rest ↔ s = text ++ rest := by
  unfold expect
  split_ifs with h
  · obtain ⟨tail, rfl⟩ := h
    simp [eq_comm]
  · simp only [false_iff]
    rintro rfl
    exact h (List.prefix_append text rest)

theorem rfind_lt {s : Bytes} {c : Byte} {i : Nat}
    (h : rfind s c = some i) : i < s.length := by
  simp only [rfind, Option.map_eq_some_iff] at h
  obtain ⟨j, hj, rfl⟩ := h
  obtain ⟨hlt, -⟩ := List.idxOf?_eq_some_iff.mp hj
  simp only [List.length_reverse] at hlt
  omega

theorem rfind_append_cons {c : Byte} {t : Bytes} (h : c ∉ t) (s : Bytes) :
    rfind (s ++ c :: t) c = some s.length := by
  have hrev : (s ++ c :: t).reverse = t.reverse ++ c :: s.reverse := by simp
  rw [rfind, hrev, idxOf?_append_cons (by simpa using h)]
  simp

theorem findSub_lt {pattern s : Bytes} {i : Nat}
    (h : findSub pattern s = some i) : i + pattern.length ≤ s.length := by
  induction s generalizing i with
  | nil =>
      simp only [findSub] at h
      split at h
      · rename_i hp
        cases h
        simpa using (List.isPrefixOf_iff_prefix.mp hp).length_le
      · cases h
  | cons c s ih =>
      simp only [findSub] at h
      split at h
      · rename_i hp
        cases h
        simpa using (List.isPrefixOf_iff_prefix.mp hp).length_le
      · simp only [Option.map_eq_some_iff] at h
        obtain ⟨j, hj, rfl⟩ := h
        have := ih hj
        simp only [List.length_cons]
        omega

theorem findSub_eq_zero {pattern s : Bytes} (h : findSub pattern s = some 0) :
    pattern.isPrefixOf s = true := by
  cases s with
  | nil =>
      rw [findSub] at h
      split_ifs at h with hprefix
      exact hprefix
  | cons c s =>
      rw [findSub] at h
      split_ifs at h with hprefix
      · exact hprefix
      · obtain ⟨i, -, hi⟩ := Option.map_eq_some_iff.1 h
        cases hi

theorem findSub_append (pattern rest : Bytes) : findSub pattern (pattern ++ rest) = some 0 := by
  have hprefix : pattern.isPrefixOf (pattern ++ rest) = true := by simp
  cases hs : pattern ++ rest with
  | nil =>
      rw [hs] at hprefix
      exact if_pos hprefix
  | cons c s =>
      rw [hs] at hprefix
      exact if_pos hprefix

theorem findSub_cons {pattern s : Bytes} {c : Byte} (h : ¬ pattern <+: c :: s) :
    findSub pattern (c :: s) = (findSub pattern s).map (· + 1) := by
  rw [findSub, if_neg]
  rwa [List.isPrefixOf_iff_prefix]

/-- A text without the first byte of the pattern cannot hold the start of an occurrence. -/
theorem findSub_skip {c : Byte} {pattern s : Bytes} (h : c ∉ s) (t : Bytes) :
    findSub (c :: pattern) (s ++ t) = (findSub (c :: pattern) t).map (s.length + ·) := by
  induction s with
  | nil => simp
  | cons d s ih =>
      rw [List.mem_cons, not_or] at h
      have hprefix : ¬ c :: pattern <+: d :: (s ++ t) := fun hpre =>
        h.1 (List.cons_prefix_cons.1 hpre).1
      rw [List.cons_append, findSub_cons hprefix, ih h.2, Option.map_map]
      congr 1
      funext i
      simp only [Function.comp_apply, List.length_cons]
      omega

theorem findSub_eq_none_iff {pattern s : Bytes} :
    findSub pattern s = none ↔ ¬ pattern <:+: s := by
  induction s with
  | nil =>
      cases pattern <;> simp [findSub]
  | cons c s ih =>
      by_cases hprefix : pattern <+: c :: s
      · rw [findSub, if_pos (List.isPrefixOf_iff_prefix.2 hprefix)]
        exact iff_of_false (by simp) (not_not.2 hprefix.isInfix)
      · rw [findSub_cons hprefix, Option.map_eq_none_iff, ih, List.infix_cons_iff]
        tauto

/-! ## Cutting -/

theorem zero_le_length (s : Bytes) : 0 ≤ s.length := s.length.zero_le

/-- `s.substr(pos)`, which throws `std::out_of_range` unless `pos ≤ s.size()`. -/
def substrFrom (s : Bytes) (pos : Nat) (_h : pos ≤ s.length) : Bytes := s.drop pos

/-- `s.substr(pos, count)`, with the same precondition. -/
def substr (s : Bytes) (pos count : Nat) (_h : pos ≤ s.length) : Bytes :=
  (s.drop pos).take count

/-- `s.compare(pos, count, other) == 0`, with the same precondition. -/
def compareEq (s : Bytes) (pos count : Nat) (other : Bytes)
    (_h : pos ≤ s.length) : Bool :=
  (s.drop pos).take count == other

@[simp] theorem substrFrom_eq (s : Bytes) (pos : Nat) (h : pos ≤ s.length) :
    substrFrom s pos h = s.drop pos := rfl

@[simp] theorem substr_eq (s : Bytes) (pos count : Nat) (h : pos ≤ s.length) :
    substr s pos count h = (s.drop pos).take count := rfl

theorem compareEq_length {s : Bytes} {pos count : Nat} {other : Bytes} {h : pos ≤ s.length}
    (hcount : other.length = count) (heq : compareEq s pos count other h = true) :
    pos + count ≤ s.length := by
  have htake : (s.drop pos).take count = other := by simpa [compareEq] using heq
  have hlen := congrArg List.length htake
  simp only [List.length_take, List.length_drop] at hlen
  omega

/-- The pieces `std::getline` extracts: nothing is extracted behind the last `delim`. -/
def getLines (delim : Byte) (s : Bytes) : List Bytes :=
  let pieces := s.splitOn delim
  if pieces.getLast? = some [] then pieces.dropLast else pieces

/-! ## Characters -/

/-- `std::isspace` in the C locale. -/
def isSpace (c : Byte) : Bool := c == 32 || (9 ≤ c && c ≤ 13)

def isDigit (c : Byte) : Bool := 48 ≤ c && c ≤ 57

/-- `std::tolower` in the C locale. -/
def toLowerByte (c : Byte) : Byte := if 65 ≤ c ∧ c ≤ 90 then c + 32 else c

theorem isDigit_byteOf {c : Char} (h : c.isDigit = true) :
    isDigit (byteOf c) = true ∧ (byteOf c).toNat - 48 = c.toNat - 48 := by
  simp only [Char.isDigit, Bool.and_eq_true, decide_eq_true_eq] at h
  obtain ⟨hlo, hhi⟩ := h
  have lo : 48 ≤ c.toNat := hlo
  have hi : c.toNat ≤ 57 := hhi
  have htoNat : (byteOf c).toNat = c.toNat := by
    simp only [byteOf, UInt8.toNat_ofNat']
    omega
  constructor
  · simp only [isDigit, Bool.and_eq_true, decide_eq_true_eq, UInt8.le_iff_toNat_le, htoNat]
    exact ⟨lo, hi⟩
  · rw [htoNat]

/-! ## Decimal numbers -/

inductive StdException where
  | invalidArgument
  | outOfRange
  deriving DecidableEq, Repr

def digitsValue (digits : Bytes) : Nat :=
  digits.foldl (fun acc d => 10 * acc + (d.toNat - 48)) 0

/-- The number written by a non-empty string of digits and nothing else. -/
def decimalValue (s : Bytes) : Option Nat :=
  if s ≠ [] ∧ s.all isDigit then some (digitsValue s) else none

/-- `std::to_string` of an unsigned number. -/
def toDecimal (n : Nat) : Bytes := (Nat.toDigits 10 n).map byteOf

private theorem foldl_byteOf (cs : List Char) (hcs : ∀ c ∈ cs, c.isDigit = true)
    (acc : Nat) :
    (cs.map byteOf).foldl (fun acc d => 10 * acc + (d.toNat - 48)) acc =
      Nat.ofDigitChars 10 cs acc := by
  induction cs generalizing acc with
  | nil => rfl
  | cons c cs ih =>
      have hc := (isDigit_byteOf (hcs c (by simp))).2
      rw [List.map_cons, List.foldl_cons, hc, Nat.ofDigitChars_cons]
      exact ih (fun d hd => hcs d (by simp [hd])) _

@[simp] theorem decimalValue_toDecimal (n : Nat) :
    decimalValue (toDecimal n) = some n := by
  have hdigits : ∀ c ∈ Nat.toDigits 10 n, c.isDigit = true := fun c hc =>
    Nat.isDigit_of_mem_toDigits (by decide) (by decide) hc
  have hvalue : digitsValue (toDecimal n) = n := by
    rw [digitsValue, toDecimal, foldl_byteOf _ hdigits, Nat.ofDigitChars_ten_toDigits]
  have hne : toDecimal n ≠ [] := by
    simp [toDecimal, Nat.toDigits_ne_nil]
  have hall : (toDecimal n).all isDigit = true := by
    simp only [toDecimal, List.all_map, List.all_eq_true, Function.comp_apply]
    exact fun c hc => (isDigit_byteOf (hdigits c hc)).1
  simp [decimalValue, hne, hall, hvalue]

/-- The optional sign and the digits read by `strtoll` and its relatives. -/
def readDigits (s : Bytes) : Bool × Bytes :=
  match s.dropWhile isSpace with
  | 45 :: rest => (true, rest.takeWhile isDigit)
  | 43 :: rest => (false, rest.takeWhile isDigit)
  | rest => (false, rest.takeWhile isDigit)

/-- `std::stoll`. -/
def stoll (s : Bytes) : Except StdException Int :=
  let (negative, digits) := readDigits s
  if digits = [] then .error .invalidArgument
  else
    let n : Int := if negative then -digitsValue digits else digitsValue digits
    if n < -2 ^ 63 ∨ 2 ^ 63 ≤ n then .error .outOfRange else .ok n

/-- `std::stoull`: a minus sign negates modulo `2 ^ 64`. -/
def stoull (s : Bytes) : Except StdException Nat :=
  let (negative, digits) := readDigits s
  if digits = [] then .error .invalidArgument
  else
    let n := digitsValue digits
    if 2 ^ 64 ≤ n then .error .outOfRange
    else .ok (if negative then (2 ^ 64 - n) % 2 ^ 64 else n)

theorem readDigits_of_all_digits {s : Bytes} (h : s.all isDigit = true) :
    readDigits s = (false, s) := by
  have hdrop : s.dropWhile isSpace = s := by
    cases s with
    | nil => rfl
    | cons c s =>
        have hc : isDigit c = true := by simp at h; exact h.1
        have : isSpace c = false := by
          revert hc
          simp only [isDigit, isSpace, Bool.and_eq_true, decide_eq_true_eq,
            UInt8.le_iff_toNat_le, Bool.or_eq_false_iff, beq_eq_false_iff_ne]
          rintro ⟨h1, h2⟩
          refine ⟨?_, ?_⟩
          · rintro rfl
            simp at h1
          · simp only [UInt8.reduceToNat] at *
            simp
            omega
        simp [this]
  have htake : s.takeWhile isDigit = s := by
    rw [List.takeWhile_eq_self_iff]
    simpa using h
  unfold readDigits
  rw [hdrop]
  split
  · simp [isDigit] at h
  · simp [isDigit] at h
  · rw [htake]

theorem stoll_of_decimalValue {s : Bytes} {n : Nat}
    (h : decimalValue s = some n) (hn : n < 2 ^ 63) : stoll s = .ok (n : Int) := by
  simp only [decimalValue, ne_eq] at h
  split at h
  · rename_i hs
    cases h
    simp only [stoll, readDigits_of_all_digits hs.2]
    rw [if_neg hs.1]
    have hlo : ¬ ((digitsValue s : Int) < -2 ^ 63) := by omega
    have hhi : ¬ ((2 : Int) ^ 63 ≤ digitsValue s) := by omega
    simp only [Bool.false_eq_true, if_false]
    rw [if_neg (by simp only [not_or]; exact ⟨hlo, hhi⟩)]
  · cases h

end CppHttpd.Foundation
