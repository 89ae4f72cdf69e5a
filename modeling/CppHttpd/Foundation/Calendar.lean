import Mathlib.Algebra.Order.Group.Nat
import Mathlib.Data.Int.Order.Basic
import Mathlib.Tactic.SplitIfs
import Mathlib.Tactic.IntervalCases

/-!
# The Gregorian calendar

Dates are counted in days from the first of January 1970, in both directions and
without end.  The count goes by years that begin in March, so that the day that
only some years have is the last of its year.
-/

namespace CppHttpd.Foundation

/-- The months are counted from zero. -/
structure Date where
  year : Int
  month : Nat
  day : Nat
  deriving DecidableEq, Repr

def isLeap (year : Int) : Bool := year % 4 = 0 ∧ (year % 100 ≠ 0 ∨ year % 400 = 0)

def monthLength (year : Int) (month : Nat) : Nat :=
  match month with
  | 1 => if isLeap year then 29 else 28
  | 3 | 5 | 8 | 10 => 30
  | _ => 31

namespace Date

structure Valid (d : Date) : Prop where
  month : d.month < 12
  day_pos : 0 < d.day
  day_le : d.day ≤ monthLength d.year d.month

def next (d : Date) : Date :=
  if d.day < monthLength d.year d.month then { d with day := d.day + 1 }
  else if d.month < 11 then ⟨d.year, d.month + 1, 1⟩
  else ⟨d.year + 1, 0, 1⟩

end Date

/-! ## Years that begin in March -/

/-- A day of a year that begins in March, counted from zero. -/
structure MarchDay where
  year : Int
  day : Nat

namespace MarchDay

/-- Such a year is long if the February at its end is. -/
def Valid (m : MarchDay) : Prop :=
  m.day < 365 ∨ m.day = 365 ∧ isLeap (m.year + 1) = true

def number (m : MarchDay) : Int :=
  365 * m.year + m.year / 4 - m.year / 100 + m.year / 400 + m.day - 719468

/-- The centuries, the groups of four years and the years in them are all of one length,
but for the last one of a group, which may have a day less or more. -/
def ofNumber (n : Int) : MarchDay :=
  let days := n + 719468
  let inEra := (days % 146097).toNat
  let century := min 3 (inEra / 36524)
  let inCentury := inEra - 36524 * century
  let inFour := inCentury % 1461
  let year := min 3 (inFour / 365)
  { year := 400 * (days / 146097) + 100 * century + 4 * (inCentury / 1461 : Nat) + year
    day := inFour - 365 * year }

theorem isLeap_eq_true_iff {year : Int} :
    isLeap year = true ↔ year % 4 = 0 ∧ (year % 100 ≠ 0 ∨ year % 400 = 0) := by
  simp [isLeap]

section

variable (era : Int) {century four year : Nat} (day : Nat)

/-- A year, taken apart into cycles of 400, 100 and 4 years. -/
def yearOf (era : Int) (century four year : Nat) : Int :=
  400 * era + 100 * century + 4 * four + year

theorem number_yearOf (hcentury : century ≤ 3) (hfour : four ≤ 24) (hyear : year ≤ 3) :
    number ⟨yearOf era century four year, day⟩ =
      146097 * era + 36524 * century + 1461 * four + 365 * year + day - 719468 := by
  have h4 : yearOf era century four year / 4 = 100 * era + 25 * century + four := by
    unfold yearOf
    omega
  have h100 : yearOf era century four year / 100 = 4 * era + century := by
    unfold yearOf
    omega
  have h400 : yearOf era century four year / 400 = era := by
    unfold yearOf
    omega
  simp only [number, h4, h100, h400]
  unfold yearOf
  omega

/-- The last year of a group of four is long, unless its century ends and no era does. -/
theorem valid_yearOf_iff (hcentury : century ≤ 3) (hfour : four ≤ 24) (hyear : year ≤ 3) :
    Valid ⟨yearOf era century four year, day⟩ ↔
      day < 365 ∨ day = 365 ∧ year = 3 ∧ (four = 24 → century = 3) := by
  have hleap : isLeap (yearOf era century four year + 1) = true ↔
      year = 3 ∧ (four = 24 → century = 3) := by
    rw [isLeap_eq_true_iff]
    unfold yearOf
    omega
  rw [Valid, hleap]

theorem exists_yearOf (y : Int) : ∃ (era : Int) (century four year : Nat),
    century ≤ 3 ∧ four ≤ 24 ∧ year ≤ 3 ∧ y = yearOf era century four year := by
  refine ⟨y / 400, (y % 400 / 100).toNat, (y % 100 / 4).toNat, (y % 4).toNat, ?_, ?_, ?_, ?_⟩
  · omega
  · omega
  · omega
  · unfold yearOf
    omega

end

theorem ofNumber_eq {era : Int} {century four year day : Nat} (hcentury : century ≤ 3)
    (hfour : four ≤ 24) (hyear : year ≤ 3)
    (hday : day < 365 ∨ day = 365 ∧ year = 3 ∧ (four = 24 → century = 3)) :
    ofNumber (146097 * era + 36524 * century + 1461 * four + 365 * year + day - 719468) =
      ⟨yearOf era century four year, day⟩ := by
  have hera : (146097 * era + 36524 * century + 1461 * four + 365 * year + day - 719468 +
      719468) / 146097 = era := by omega
  have hrest : ((146097 * era + 36524 * century + 1461 * four + 365 * year + day - 719468 +
      719468) % 146097).toNat = 36524 * century + 1461 * four + 365 * year + day := by omega
  have hcenturies : min 3 ((36524 * century + 1461 * four + 365 * year + day) / 36524) =
      century := by omega
  have hinCentury : 36524 * century + 1461 * four + 365 * year + day - 36524 * century =
      1461 * four + 365 * year + day := by omega
  have hfours : (1461 * four + 365 * year + day) / 1461 = four := by omega
  have hinFour : (1461 * four + 365 * year + day) % 1461 = 365 * year + day := by omega
  have hyears : min 3 ((365 * year + day) / 365) = year := by omega
  simp only [ofNumber, hera, hrest, hcenturies, hinCentury, hfours, hinFour, hyears, yearOf]
  congr 1
  omega

theorem ofNumber_number {m : MarchDay} (h : m.Valid) : ofNumber m.number = m := by
  obtain ⟨y, day⟩ := m
  obtain ⟨era, century, four, year, hcentury, hfour, hyear, rfl⟩ := exists_yearOf y
  rw [number_yearOf era day hcentury hfour hyear]
  exact ofNumber_eq hcentury hfour hyear
    ((valid_yearOf_iff era day hcentury hfour hyear).1 h)

theorem exists_number (n : Int) : ∃ m : MarchDay, m.Valid ∧ m.number = n := by
  obtain ⟨era, rest, hrest, rfl⟩ : ∃ (era : Int) (rest : Nat), rest < 146097 ∧
      n = 146097 * era + rest - 719468 :=
    ⟨(n + 719468) / 146097, ((n + 719468) % 146097).toNat, by omega, by omega⟩
  obtain ⟨century, inCentury, hcentury, hin, rfl⟩ : ∃ century inCentury : Nat, century ≤ 3 ∧
      (inCentury < 36524 ∨ inCentury = 36524 ∧ century = 3) ∧
      rest = 36524 * century + inCentury :=
    ⟨min 3 (rest / 36524), rest - 36524 * min 3 (rest / 36524), by omega, by omega, by omega⟩
  obtain ⟨four, inFour, hfour, rfl⟩ : ∃ four inFour : Nat, inFour < 1461 ∧
      inCentury = 1461 * four + inFour :=
    ⟨inCentury / 1461, inCentury % 1461, by omega, by omega⟩
  obtain ⟨year, day, hyear, hday, rfl⟩ : ∃ year day : Nat, year ≤ 3 ∧
      (day < 365 ∨ day = 365 ∧ year = 3) ∧ inFour = 365 * year + day :=
    ⟨min 3 (inFour / 365), inFour - 365 * min 3 (inFour / 365), by omega, by omega, by omega⟩
  have hfours : four ≤ 24 := by omega
  refine ⟨⟨yearOf era century four year, day⟩, ?_, ?_⟩
  · rw [valid_yearOf_iff era day hcentury hfours hyear]
    omega
  · rw [number_yearOf era day hcentury hfours hyear]
    omega

theorem ofNumber_spec (n : Int) : (ofNumber n).Valid ∧ (ofNumber n).number = n := by
  obtain ⟨m, hvalid, rfl⟩ := exists_number n
  rw [ofNumber_number hvalid]
  exact ⟨hvalid, rfl⟩

end MarchDay

/-! ## Months -/

/-- How many days a year that begins in March has before its months. -/
def marchMonthStart (month : Nat) : Nat := (153 * month + 2) / 5

def marchMonth (day : Nat) : Nat := (5 * day + 2) / 153

theorem marchMonth_eq_iff {day month : Nat} :
    marchMonth day = month ↔
      marchMonthStart month ≤ day ∧ day < marchMonthStart (month + 1) := by
  unfold marchMonth marchMonthStart
  omega

theorem marchMonthStart_mono {month month' : Nat} (h : month ≤ month') :
    marchMonthStart month ≤ marchMonthStart month' := by
  unfold marchMonthStart
  omega

/-- Every month but February is as long as it is in a year that begins in March. -/
theorem monthLength_march (year : Int) {month : Nat} (h : month < 12) (hfebruary : month ≠ 1) :
    marchMonthStart ((month + 10) % 12 + 1) =
      marchMonthStart ((month + 10) % 12) + monthLength year month := by
  have hall : ∀ m < 12, m ≠ 1 → marchMonthStart ((m + 10) % 12 + 1) =
      marchMonthStart ((m + 10) % 12) + monthLength year m := by
    intro m hm hne
    interval_cases m <;> first | rfl | exact absurd rfl hne
  exact hall month h hfebruary

theorem monthLength_pos (year : Int) (month : Nat) : 0 < monthLength year month := by
  unfold monthLength
  split <;> (try split) <;> exact Nat.succ_pos _

theorem monthLength_le (year : Int) (month : Nat) : monthLength year month ≤ 31 := by
  unfold monthLength
  split <;> (try split) <;> decide

theorem monthLength_february (year : Int) :
    monthLength year 1 = if isLeap year then 29 else 28 := rfl

namespace Date

def march (d : Date) : MarchDay where
  year := if d.month < 2 then d.year - 1 else d.year
  day := marchMonthStart ((d.month + 10) % 12) + (d.day - 1)

def ofMarch (m : MarchDay) : Date where
  year := if marchMonth m.day < 10 then m.year else m.year + 1
  month := (marchMonth m.day + 2) % 12
  day := m.day - marchMonthStart (marchMonth m.day) + 1

theorem march_valid {d : Date} (h : d.Valid) : d.march.Valid := by
  obtain ⟨year, month, day⟩ := d
  obtain ⟨hmonth, hpos, hle⟩ := h
  dsimp only at hmonth hpos hle
  by_cases hfebruary : month = 1
  · subst hfebruary
    have hyear : year - 1 + 1 = year := by omega
    have hstart : marchMonthStart 11 = 337 := rfl
    simp only [march, MarchDay.Valid, Nat.reduceAdd, Nat.reduceMod, hstart, Nat.reduceLT, if_true,
      hyear]
    rw [monthLength_february] at hle
    split_ifs at hle with hleap
    · exact (by omega : 337 + (day - 1) < 365 ∨ 337 + (day - 1) = 365).imp_right fun heq =>
        ⟨heq, hleap⟩
    · exact .inl (by omega)
  · have hlength := monthLength_march year hmonth hfebruary
    have hend : marchMonthStart ((month + 10) % 12 + 1) ≤ marchMonthStart 11 :=
      marchMonthStart_mono (by omega)
    have hstart : marchMonthStart 11 = 337 := rfl
    exact .inl (by dsimp only [march]; omega)

theorem marchMonth_march {d : Date} (h : d.Valid) : marchMonth d.march.day = (d.month + 10) % 12 := by
  obtain ⟨year, month, day⟩ := d
  obtain ⟨hmonth, hpos, hle⟩ := h
  dsimp only at hmonth hpos hle
  rw [marchMonth_eq_iff]
  by_cases hfebruary : month = 1
  · subst hfebruary
    have hstart : marchMonthStart 11 = 337 ∧ marchMonthStart 12 = 367 := ⟨rfl, rfl⟩
    simp only [march, Nat.reduceAdd, Nat.reduceMod, hstart]
    rw [monthLength_february] at hle
    split_ifs at hle <;> omega
  · have hlength := monthLength_march year hmonth hfebruary
    simp only [march]
    omega

theorem ofMarch_march {d : Date} (h : d.Valid) : ofMarch d.march = d := by
  have hmonth := h.month
  have hpos := h.day_pos
  have hmarch := marchMonth_march h
  obtain ⟨year, month, day⟩ := d
  simp only [ofMarch, hmarch, mk.injEq]
  dsimp only [march] at hmonth hpos ⊢
  refine ⟨?_, by omega, by omega⟩
  split_ifs <;> omega

theorem march_ofMarch {m : MarchDay} (h : m.Valid) : (ofMarch m).march = m ∧ (ofMarch m).Valid := by
  obtain ⟨year, day⟩ := m
  have hday : day < 365 ∨ day = 365 ∧ isLeap (year + 1) = true := h
  obtain ⟨hstart, hend⟩ := marchMonth_eq_iff.1 (rfl : marchMonth day = marchMonth day)
  have hmonths : marchMonth day < 12 := by
    unfold marchMonth
    omega
  have hback : ((marchMonth day + 2) % 12 + 10) % 12 = marchMonth day := by omega
  constructor
  · simp only [march, ofMarch, hback, MarchDay.mk.injEq]
    refine ⟨?_, by omega⟩
    split_ifs <;> omega
  · refine ⟨by dsimp only [ofMarch]; omega, Nat.succ_pos _, ?_⟩
    simp only [ofMarch]
    by_cases hfebruary : marchMonth day = 11
    · have hlast : marchMonthStart 11 = 337 := rfl
      simp only [hfebruary, Nat.reduceAdd, Nat.reduceMod, hlast, Nat.reduceLT, if_false,
        monthLength_february]
      rcases hday with hlt | ⟨rfl, hleap⟩
      · split_ifs <;> omega
      · rw [if_pos hleap]
    · have hlength := monthLength_march (if marchMonth day < 10 then year else year + 1)
        (by omega : (marchMonth day + 2) % 12 < 12) (by omega)
      rw [hback] at hlength
      omega

/-! ## Dates and their numbers -/

/-- The days from the first of January 1970 on. -/
def number (d : Date) : Int := d.march.number

def ofNumber (n : Int) : Date := ofMarch (.ofNumber n)

theorem number_ofNumber (n : Int) : (ofNumber n).number = n := by
  obtain ⟨hvalid, hnumber⟩ := MarchDay.ofNumber_spec n
  rw [number, ofNumber, (march_ofMarch hvalid).1, hnumber]

theorem ofNumber_valid (n : Int) : (ofNumber n).Valid :=
  (march_ofMarch (MarchDay.ofNumber_spec n).1).2

theorem ofNumber_number {d : Date} (h : d.Valid) : ofNumber d.number = d := by
  rw [ofNumber, number, MarchDay.ofNumber_number (march_valid h), ofMarch_march h]

theorem number_eq_first {d : Date} (h : d.Valid) :
    d.number = number ⟨d.year, d.month, 1⟩ + (d.day - 1) := by
  have hpos := h.day_pos
  simp only [number, march, MarchDay.number]
  omega

/-- January and February are counted with the year before. -/
theorem march_bounds {d : Date} (h : d.Valid) :
    d.march.year = d.year ∧ d.march.day < 306 ∨
      d.march.year = d.year - 1 ∧ 306 ≤ d.march.day ∧ d.march.day ≤ 365 := by
  have hmonth := h.month
  have hle : d.march.day ≤ 365 := (march_valid h).elim (fun hlt => hlt.le) fun heq => heq.1.le
  have hmarch : 5 * d.march.day + 2 < 153 * 10 ↔ (d.month + 10) % 12 < 10 := by
    rw [← marchMonth_march h, marchMonth]
    omega
  have hyear : d.march.year = if d.month < 2 then d.year - 1 else d.year := rfl
  rw [hyear]
  split_ifs <;> omega

theorem year_nonneg_iff {d : Date} (h : d.Valid) : 0 ≤ d.year ↔ -719528 ≤ d.number := by
  unfold number MarchDay.number
  rcases march_bounds h with ⟨hyear, hday⟩ | ⟨hyear, hday, hlast⟩
  · rw [hyear]
    constructor <;> intro hle <;> omega
  · rw [← Int.sub_add_cancel d.year 1, ← hyear]
    constructor <;> intro hle <;> omega

theorem year_le_iff {d : Date} (h : d.Valid) : d.year ≤ 9999 ↔ d.number < 2932897 := by
  unfold number MarchDay.number
  rcases march_bounds h with ⟨hyear, hday⟩ | ⟨hyear, hday, hlast⟩
  · rw [hyear]
    constructor <;> intro hle <;> omega
  · rw [← Int.sub_add_cancel d.year 1, ← hyear]
    constructor <;> intro hle <;> omega

theorem next_valid {d : Date} (h : d.Valid) : d.next.Valid := by
  obtain ⟨hmonth, hpos, hle⟩ := h
  unfold next
  split_ifs with hday hlast
  · exact ⟨hmonth, Nat.succ_pos _, hday⟩
  · exact ⟨Nat.succ_lt_succ hlast, Nat.one_pos, monthLength_pos _ _⟩
  · exact ⟨Nat.succ_pos _, Nat.one_pos, monthLength_pos _ _⟩

theorem number_next_february (year : Int) :
    number ⟨year, 2, 1⟩ = number ⟨year, 1, monthLength year 1⟩ + 1 := by
  have hlast : marchMonthStart 11 = 337 := rfl
  have hfirst : marchMonthStart 0 = 0 := rfl
  rw [monthLength_february]
  simp only [number, march, MarchDay.number, Nat.reduceAdd, Nat.reduceMod, hlast, hfirst,
    Nat.reduceLT, if_true, if_false, lt_self_iff_false]
  by_cases hleap : isLeap year = true
  · rw [if_pos hleap]
    rw [MarchDay.isLeap_eq_true_iff] at hleap
    omega
  · rw [if_neg hleap]
    rw [MarchDay.isLeap_eq_true_iff] at hleap
    omega

theorem number_next {d : Date} (h : d.Valid) : d.next.number = d.number + 1 := by
  obtain ⟨year, month, day⟩ := d
  obtain ⟨hmonth, hpos, hle⟩ := h
  dsimp only at hmonth hpos hle
  unfold next
  dsimp only
  split_ifs with hday hlast
  · simp only [number, march, MarchDay.number]
    omega
  · obtain rfl : day = monthLength year month := by omega
    by_cases hfebruary : month = 1
    · subst hfebruary
      exact number_next_february year
    · have hlength := monthLength_march year hmonth hfebruary
      have hnext : (month + 1 + 10) % 12 = (month + 10) % 12 + 1 := by omega
      simp only [number, march, MarchDay.number, hnext, hlength]
      split_ifs <;> omega
  · obtain rfl : month = 11 := by omega
    obtain rfl : day = 31 := by
      have hlength : monthLength year 11 = 31 := rfl
      omega
    have hstarts : marchMonthStart 9 = 275 ∧ marchMonthStart 10 = 306 := ⟨rfl, rfl⟩
    simp only [number, march, MarchDay.number, Nat.reduceAdd, Nat.reduceMod, hstarts,
      Nat.reduceLT, if_true, if_false, Nat.ofNat_pos]
    omega

theorem ofNumber_succ (n : Int) : ofNumber (n + 1) = (ofNumber n).next := by
  have hvalid := ofNumber_valid n
  rw [← ofNumber_number (next_valid hvalid), number_next hvalid, number_ofNumber]

end Date

end CppHttpd.Foundation
