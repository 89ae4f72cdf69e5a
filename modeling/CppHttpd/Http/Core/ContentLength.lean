import CppHttpd.Foundation.Numerals
import CppHttpd.Http.Core.RequestWire

/-!
# The declared length

`process_headers` hands the value of `content-length` to `std::stoll`.  A
value of nothing but digits is what a length should be; `std::stoll` reads
more texts than these, and not all of these.
-/

namespace CppHttpd

open CppHttpd.Foundation

/-- The headers end with the length `value`, read as a decimal number and as nothing else. -/
structure ReadsLength (value : Bytes) (method : Method) (p : RequestParser) : Prop where
  within : ∀ n, decimalValue value = some n → n ≤ MAX_BODY_SIZE →
    p.bodyBytesRemaining = n ∧ p.state = if method = .POST ∧ 0 < n then .body else .done
  tooLarge : ∀ n, decimalValue value = some n → MAX_BODY_SIZE < n →
    p.state = .error ∧ p.error = .payloadTooLarge
  notDecimal : decimalValue value = none → p.state = .error ∧ p.error = .badRequest

/-- A decimal number that `std::stoll` cannot represent. -/
def Overflowing (value : Bytes) : Prop := ∃ n, decimalValue value = some n ∧ 2 ^ 63 ≤ n

/-- Not a decimal number, but read by `std::stoll` as one that is not negative. -/
structure ReadLeniently (value : Bytes) : Prop where
  notDecimal : decimalValue value = none
  read : ∃ m : Numeral, m.toBytes = value ∧ digitsValue m.digits < 2 ^ 63 ∧
    (m.sign = .minus → digitsValue m.digits = 0)

theorem MAX_BODY_SIZE_lt : MAX_BODY_SIZE < 2 ^ 63 := by decide

theorem decimalValue_of_overflow {value : Bytes} {n : Nat} (h : decimalValue value = some n)
    (hn : 2 ^ 63 ≤ n) : stoll value = .error .outOfRange := by
  unfold decimalValue at h
  split_ifs at h with hdigits
  cases h
  simp only [stoll, readDigits_of_all_digits hdigits.2, hdigits.1, Bool.false_eq_true, if_false]
  rw [if_pos (by omega)]

/-- `std::stoll` reads a number that is not negative. -/
theorem stoll_nonneg_iff {value : Bytes} :
    (∃ v : Int, stoll value = .ok v ∧ 0 ≤ v) ↔
      ∃ m : Numeral, m.toBytes = value ∧ digitsValue m.digits < 2 ^ 63 ∧
        (m.sign = .minus → digitsValue m.digits = 0) := by
  constructor
  · rintro ⟨v, hread, hnonneg⟩
    obtain ⟨m, hm, rfl, hlo, hhi⟩ := Numeral.stoll_eq_ok_iff.1 hread
    unfold Numeral.signedValue at hnonneg hhi hlo
    refine ⟨m, hm, ?_⟩
    split_ifs at hnonneg hhi hlo with hsign
    · exact ⟨by omega, fun _ => by omega⟩
    · exact ⟨by omega, fun hminus => absurd hminus hsign⟩
  · rintro ⟨m, hm, hlt, hminus⟩
    refine ⟨m.signedValue, Numeral.stoll_eq_ok_iff.2 ⟨m, hm, rfl, ?_⟩, ?_⟩
    all_goals
      unfold Numeral.signedValue
      split_ifs with hsign
      · have hzero := hminus hsign
        omega
      · omega

namespace RequestParser

variable {p : RequestParser} {value : Bytes}

theorem endHeaders_of_nonneg
    (hvalue : p.request.headers.lookup (ascii "content-length") = some value) {v : Int}
    (hread : stoll value = .ok v) (hnonneg : 0 ≤ v) : p.endHeaders = p.acceptLength v.toNat := by
  unfold endHeaders
  rw [hvalue]
  simp only [hread]
  rw [if_neg (by omega)]

theorem endHeaders_of_no_length
    (hvalue : p.request.headers.lookup (ascii "content-length") = some value)
    (hread : ¬ ∃ v : Int, stoll value = .ok v ∧ 0 ≤ v) :
    p.endHeaders = p.fail .badRequest "Invalid Content-Length" := by
  unfold endHeaders
  rw [hvalue]
  dsimp only
  split
  · rfl
  · rename_i v hv
    rw [if_pos]
    by_contra hneg
    exact hread ⟨v, hv, by omega⟩

theorem acceptLength_of_le {cl : Nat} (h : cl ≤ MAX_BODY_SIZE) :
    (p.acceptLength cl).2.bodyBytesRemaining = cl ∧
      (p.acceptLength cl).2.state =
        if p.request.method = .POST ∧ 0 < cl then .body else .done := by
  rw [acceptLength, if_neg (by omega)]
  exact ⟨rfl, rfl⟩

theorem acceptLength_of_gt {cl : Nat} (h : MAX_BODY_SIZE < cl) :
    (p.acceptLength cl).2.state = .error ∧ (p.acceptLength cl).2.error = .payloadTooLarge := by
  rw [acceptLength, if_pos h]
  exact ⟨rfl, rfl⟩

/-- Whatever number is accepted, the parser is not told that the value is no number. -/
theorem acceptLength_not_badRequest (cl : Nat) :
    ¬ ((p.acceptLength cl).2.state = .error ∧ (p.acceptLength cl).2.error = .badRequest) := by
  rintro ⟨hstate, herror⟩
  rcases Nat.lt_or_ge MAX_BODY_SIZE cl with hgt | hle
  · rw [(acceptLength_of_gt hgt).2] at herror
    cases herror
  · rw [(acceptLength_of_le hle).2] at hstate
    split_ifs at hstate

theorem endHeaders_readsLength
    (hvalue : p.request.headers.lookup (ascii "content-length") = some value)
    (hoverflow : ¬ Overflowing value) (hstrict : ¬ ReadLeniently value) :
    ReadsLength value p.request.method p.endHeaders.2 := by
  cases hdecimal : decimalValue value with
  | some n =>
      have hlt : n < 2 ^ 63 := by
        by_contra hge
        exact hoverflow ⟨n, hdecimal, by omega⟩
      have hread := stoll_of_decimalValue hdecimal hlt
      have hend := endHeaders_of_nonneg hvalue hread (by omega)
      rw [Int.toNat_natCast] at hend
      rw [hend]
      constructor
      · intro n' hn' hle
        obtain rfl := Option.some.inj (hdecimal.symm.trans hn')
        exact acceptLength_of_le hle
      · intro n' hn' hgt
        obtain rfl := Option.some.inj (hdecimal.symm.trans hn')
        exact acceptLength_of_gt hgt
      · intro hnone
        rw [hdecimal] at hnone
        cases hnone
  | none =>
      have hread : ¬ ∃ v : Int, stoll value = .ok v ∧ 0 ≤ v := fun hok =>
        hstrict ⟨hdecimal, stoll_nonneg_iff.1 hok⟩
      rw [endHeaders_of_no_length hvalue hread]
      constructor
      · intro n hn
        rw [hdecimal] at hn
        cases hn
      · intro n hn
        rw [hdecimal] at hn
        cases hn
      · intro _
        exact ⟨rfl, rfl⟩

theorem endHeaders_overflowing
    (hvalue : p.request.headers.lookup (ascii "content-length") = some value)
    (h : Overflowing value) : ¬ ReadsLength value p.request.method p.endHeaders.2 := by
  intro hreads
  obtain ⟨n, hdecimal, hn⟩ := h
  have hno : ¬ ∃ v : Int, stoll value = .ok v ∧ 0 ≤ v := by
    rintro ⟨v, hv, -⟩
    rw [decimalValue_of_overflow hdecimal hn] at hv
    cases hv
  have hlarge := hreads.tooLarge n hdecimal (by have := MAX_BODY_SIZE_lt; omega)
  rw [endHeaders_of_no_length hvalue hno] at hlarge
  cases hlarge.2

theorem endHeaders_readLeniently
    (hvalue : p.request.headers.lookup (ascii "content-length") = some value)
    (h : ReadLeniently value) : ¬ ReadsLength value p.request.method p.endHeaders.2 := by
  intro hreads
  obtain ⟨v, hread, hnonneg⟩ := stoll_nonneg_iff.2 h.read
  have hbad := hreads.notDecimal h.notDecimal
  rw [endHeaders_of_nonneg hvalue hread hnonneg] at hbad
  exact acceptLength_not_badRequest _ hbad

/-- The blank line ends the headers with the declared length, unless `std::stoll` reads
something else than a decimal number or overflows on one. -/
theorem processHeaders_readsLength_iff (p : RequestParser) (lineEnd : LineEnd) (rest : Bytes)
    {value : Bytes} (hvalue : p.request.headers.lookup (ascii "content-length") = some value) :
    ReadsLength value p.request.method
        (processHeaders { p with buffer := lineEnd.bytes ++ rest }).2 ↔
      ¬ Overflowing value ∧ ¬ ReadLeniently value := by
  have hcut := cutLine_clean cleanLine_nil lineEnd rest
  rw [List.nil_append] at hcut
  simp only [processHeaders, hcut, if_true]
  constructor
  · intro hreads
    constructor
    · intro hoverflow
      exact endHeaders_overflowing (p := { p with buffer := rest }) hvalue hoverflow hreads
    · intro hlenient
      exact endHeaders_readLeniently (p := { p with buffer := rest }) hvalue hlenient hreads
  · rintro ⟨hoverflow, hstrict⟩
    exact endHeaders_readsLength (p := { p with buffer := rest }) hvalue hoverflow hstrict

theorem processHeaders_readsLength_iff_trailing :
    let headers := (∅ : HeaderMap).insert (ascii "content-length") (ascii "5abc")
    let p : RequestParser := { state := .headers, request := { method := .POST, headers } }
    ReadsLength (ascii "5abc") .POST
        (processHeaders { p with buffer := LineEnd.crlf.bytes ++ ascii "hello" }).2 ↔
      ¬ Overflowing (ascii "5abc") ∧ ¬ ReadLeniently (ascii "5abc") := by
  intro headers p
  exact processHeaders_readsLength_iff p .crlf (ascii "hello") (AList.lookup_insert _)

/-- `5abc` starts a body of five bytes, and a length of twenty digits is a bad request. -/
theorem feed_misreads_length :
    let lenient := feed {} (ascii "POST / HTTP/1.1\r\nContent-Length: 5abc\r\n\r\n")
    let huge := feed {} (ascii "POST / HTTP/1.1\r\nContent-Length: 99999999999999999999\r\n\r\n")
    lenient.state = .body ∧ lenient.bodyBytesRemaining = 5 ∧
      ¬ ReadsLength (ascii "5abc") .POST lenient ∧
      ¬ ReadsLength (ascii "99999999999999999999") .POST huge := by
  refine ⟨by decide, by decide, ?_, ?_⟩
  · intro hreads
    have hbad := hreads.notDecimal (by decide)
    revert hbad
    decide
  · intro hreads
    have hlarge := hreads.tooLarge 99999999999999999999 (by decide) (by decide)
    revert hlarge
    decide

end RequestParser
end CppHttpd
