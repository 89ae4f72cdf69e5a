import CppHttpd.Os.DateFormat
import CppHttpd.Os.FileSystem

/-!
# Dates in headers

The date that a header gives is read by the same format that it was written by.
-/

namespace CppHttpd

open CppHttpd.Foundation

namespace HttpDate

def httpDateFormat : Bytes := ascii "%a, %d %b %Y %H:%M:%S GMT"

/-- The format up to the year. -/
def dayItems : List DateItem :=
  [.field .weekday, .char COMMA, .char SP, .field .monthDay, .char SP, .field .month, .char SP]

/-- The format from the year on. -/
def clockItems : List DateItem :=
  [.char SP, .field .hour, .char COLON, .field .minute, .char COLON, .field .second, .char SP,
    .char (byteOf 'G'), .char (byteOf 'M'), .char (byteOf 'T')]

def httpDateItems : List DateItem := dayItems ++ .field .year :: clockItems

theorem dateItems_httpDateFormat : dateItems httpDateFormat = some httpDateItems := by decide

/-- `strftime` writes nothing where the buffer is too small. -/
def formatHttpDate (t : Int) : Bytes :=
  match gmtime t with
  | none => []
  | some tm =>
      let text := strftime httpDateItems tm
      if text.length < 64 then text else []

def parseHttpDate (s : Bytes) : Option Int :=
  if s = [] then none
  else (strptime httpDateItems (cString s) {}).map fun (_, tm) => timegm tm

example : formatHttpDate 784111777 = ascii "Sun, 06 Nov 1994 08:49:37 GMT" := by decide +kernel

theorem inRange_of_gmtime {t : Int} {tm : BrokenTime} (h : gmtime t = some tm) {f : DateField}
    (hf : f ≠ .year) : f.InRange tm := by
  unfold gmtime at h
  dsimp only at h
  split_ifs at h
  cases h
  have hvalid := Date.ofNumber_valid (t / 86400)
  have hlength := monthLength_le (Date.ofNumber (t / 86400)).year (Date.ofNumber (t / 86400)).month
  cases f with
  | weekday => dsimp only [DateField.InRange]; omega
  | monthDay => exact ⟨hvalid.day_pos, hvalid.day_le.trans hlength⟩
  | month => exact hvalid.month
  | year => exact absurd rfl hf
  | hour => dsimp only [DateField.InRange]; omega
  | minute => dsimp only [DateField.InRange]; omega
  | second => dsimp only [DateField.InRange]; omega

/-! ## The text of a date -/

/-- Bytes that no directive writes, whatever the time is. -/
def Foreign (c : Byte) : Prop := isAlnum c = false ∧ c ≠ DASH ∧ c ≠ QUESTION

theorem Foreign.notMem_printName {c : Byte} (h : Foreign c) {names : List Bytes}
    (hnames : NameTable names) (i : Nat) : c ∉ printName names i := by
  intro hmem
  have hname := List.mem_of_mem_take hmem
  cases hget : names[i]? with
  | none =>
      rw [hget] at hname
      exact h.2.2 (List.mem_singleton.1 hname)
  | some name =>
      rw [hget] at hname
      have hletter := hnames.letters name (List.mem_of_getElem? hget) c hname
      rw [h.1] at hletter
      cases hletter

theorem Foreign.notMem_print {c : Byte} (h : Foreign c) {item : DateItem}
    (hitem : item ≠ .char c) (tm : BrokenTime) : c ∉ item.print tm := by
  have hdigit : isDigit c = false := isDigit_eq_false_of_isAlnum h.1
  cases item with
  | char d =>
      intro hmem
      exact hitem (congrArg DateItem.char (List.mem_singleton.1 hmem).symm)
  | field f =>
      cases f with
      | weekday => exact h.notMem_printName weekdayNames_table _
      | month => exact h.notMem_printName monthNames_table _
      | year => exact not_mem_intToDecimal hdigit (fun hmem => h.2.1 (List.mem_singleton.1 hmem)) _
      | monthDay => exact not_mem_zeroPadded hdigit _ _
      | hour => exact not_mem_zeroPadded hdigit _ _
      | minute => exact not_mem_zeroPadded hdigit _ _
      | second => exact not_mem_zeroPadded hdigit _ _

theorem Foreign.notMem_strftime {c : Byte} (h : Foreign c)
    (hitems : ∀ item ∈ httpDateItems, item ≠ .char c) (tm : BrokenTime) :
    c ∉ strftime httpDateItems tm := by
  intro hmem
  obtain ⟨item, hitem, hprint⟩ := List.mem_flatMap.1 hmem
  exact h.notMem_print (hitems item hitem) tm hprint

theorem cString_strftime (tm : BrokenTime) :
    cString (strftime httpDateItems tm) = strftime httpDateItems tm :=
  cString_of_not_mem (Foreign.notMem_strftime ⟨rfl, by decide, by decide⟩ (by decide) tm)

theorem strftime_ne_nil (tm : BrokenTime) : strftime httpDateItems tm ≠ [] := by
  intro hempty
  have hcomma : COMMA ∈ strftime httpDateItems tm :=
    List.mem_flatMap.2 ⟨.char COMMA, by decide, List.mem_singleton_self _⟩
  rw [hempty] at hcomma
  cases hcomma

theorem parseHttpDate_strftime (tm : BrokenTime) :
    parseHttpDate (strftime httpDateItems tm) =
      (strptime httpDateItems (strftime httpDateItems tm) {}).map fun (_, tm) => timegm tm := by
  rw [parseHttpDate, if_neg (strftime_ne_nil tm), cString_strftime]

section

variable {t : Int} {tm : BrokenTime}

/-! ## Years of at most four digits -/

theorem parseHttpDate_of_year (h : gmtime t = some tm) (hyear : DateField.year.InRange tm) :
    parseHttpDate (strftime httpDateItems tm) = some t := by
  have hchain : httpDateItems.IsChain (DateItem.follows · · = true) := by decide
  have hrange : ∀ item ∈ httpDateItems, item.InRange tm := by
    intro item hitem
    cases item with
    | char c => trivial
    | field f =>
        by_cases hf : f = .year
        · exact hf ▸ hyear
        · exact inRange_of_gmtime h hf
  have hstops : ∀ item ∈ httpDateItems.getLast?, item.Stops [] := by
    simp [httpDateItems, clockItems, DateItem.Stops]
  have hread := DateItem.strptime_strftime_append hchain hrange hstops [] {}
  rw [List.append_nil, List.append_nil] at hread
  rw [parseHttpDate_strftime, hread]
  exact congrArg some (gmtime_eq_some h).1

theorem length_printName_le (names : List Bytes) (i : Nat) : (printName names i).length ≤ 3 :=
  List.length_take_le _ _

/-- No year of an `int` makes the text too long for its buffer. -/
theorem length_strftime_lt (h : gmtime t = some tm) :
    (strftime httpDateItems tm).length < 64 := by
  have hyear : (HttpResponse.intToDecimal (tm.year + 1900)).length ≤ 11 := by
    rw [length_intToDecimal_le_iff (by decide)]
    have hint := gmtime_year h
    omega
  have hweekday := length_printName_le weekdayNames tm.wday
  have hmonth := length_printName_le monthNames tm.mon
  have hpadded : ∀ {n : Nat}, n < 100 → (zeroPadded 2 n).length = 2 := fun hn =>
    length_zeroPadded (by decide) hn
  have hday := hpadded ((inRange_of_gmtime h (f := .monthDay) nofun).2.trans_lt (by decide))
  have hhour := hpadded (lt_of_le_of_lt (inRange_of_gmtime h (f := .hour) nofun) (by decide))
  have hmin := hpadded (lt_of_le_of_lt (inRange_of_gmtime h (f := .minute) nofun) (by decide))
  have hsec := hpadded (lt_of_le_of_lt (inRange_of_gmtime h (f := .second) nofun) (by decide))
  simp only [strftime, httpDateItems, dayItems, clockItems, List.cons_append, List.nil_append,
    List.flatMap_cons, List.flatMap_nil, DateItem.print, DateField.print, List.length_append,
    List.length_cons, List.length_nil]
  omega

theorem formatHttpDate_of_gmtime (h : gmtime t = some tm) :
    formatHttpDate t = strftime httpDateItems tm := by
  simp only [formatHttpDate, h]
  exact if_pos (length_strftime_lt h)

/-! ## Other years -/

theorem exists_numberLoop_rest {digits rest : Bytes} (hdigits : ∀ c ∈ digits, isDigit c = true)
    (hrest : ∀ c ∈ rest.head?, isDigit c = false) (hi width val : Nat) :
    ∃ tail, (∀ c ∈ tail, isDigit c = true) ∧
      (numberLoop hi width val (digits ++ rest)).2 = tail ++ rest := by
  induction digits generalizing width val with
  | nil =>
      refine ⟨[], nofun, ?_⟩
      cases width with
      | zero => rfl
      | succ width =>
          cases rest with
          | nil => rfl
          | cons c rest =>
              have hc : isDigit c = false := hrest c rfl
              simp [numberLoop, hc]
  | cons c digits ih =>
      cases width with
      | zero => exact ⟨c :: digits, hdigits, rfl⟩
      | succ width =>
          rw [List.cons_append, numberLoop]
          split_ifs
          · exact ih (List.forall_mem_cons.1 hdigits).2 width _
          · exact ⟨c :: digits, hdigits, rfl⟩

/-- Behind the digits that the hour leaves there is no colon. -/
theorem readChar_colon_digits {tail : Bytes} (htail : ∀ c ∈ tail, isDigit c = true)
    (rest : Bytes) : readChar COLON (tail ++ SP :: rest) = none := by
  cases tail with
  | nil => rfl
  | cons c tail =>
      have hc : COLON ≠ c := by
        rintro rfl
        cases htail COLON List.mem_cons_self
      have hblank : isSpace COLON = false := rfl
      simp [readChar, hblank, hc]

/-- A year of more digits leaves some of them where the hour should be. -/
theorem strptime_clockItems_digits {digits : Bytes} (hne : digits ≠ [])
    (hdigits : ∀ c ∈ digits, isDigit c = true) (rest : Bytes) (start : BrokenTime) :
    strptime clockItems (digits ++ SP :: rest) start = none := by
  obtain ⟨c, digits, rfl⟩ := List.exists_cons_of_ne_nil hne
  obtain ⟨hc, hdigits⟩ := List.forall_mem_cons.1 hdigits
  have hdrop : (c :: (digits ++ SP :: rest)).dropWhile isSpace = c :: (digits ++ SP :: rest) :=
    List.dropWhile_cons_of_neg (by simp [Numeral.isSpace_of_isDigit hc])
  have hblankEnds : ∀ d ∈ (SP :: rest).head?, isDigit d = false := by
    rintro _ ⟨⟩
    rfl
  obtain ⟨tail, htail, hloop⟩ := exists_numberLoop_rest hdigits hblankEnds 23 1 (c.toNat - 48)
  have hblank : readChar SP (c :: (digits ++ SP :: rest)) = some (c :: (digits ++ SP :: rest)) := by
    rw [readChar, if_pos (by decide), hdrop]
  have hcolon := readChar_colon_digits htail rest
  simp only [clockItems, List.cons_append, strptime, DateItem.read, hblank, Option.map_some,
    Option.bind_some, DateField.read, getNumber, hdrop, hc, if_true]
  split_ifs
  · simp only [Option.map_some, Option.bind_some, hloop, hcolon, Option.map_none,
      Option.bind_none]
  · rfl

theorem digitsValue_lt {digits : Bytes} (hdigits : ∀ c ∈ digits, isDigit c = true) :
    digitsValue digits < 10 ^ digits.length := by
  induction digits using List.reverseRecOn with
  | nil => decide
  | append_singleton digits c ih =>
      have hc : c.toNat ≤ 57 := by
        have hdigit := hdigits c (by simp)
        simp only [isDigit, Bool.and_eq_true, decide_eq_true_eq, UInt8.le_iff_toNat_le] at hdigit
        exact hdigit.2
      have hvalue := ih fun d hd => hdigits d (List.mem_append_left _ hd)
      rw [digitsValue_append, List.length_append, List.length_singleton, pow_succ]
      simp only [List.foldl_cons, List.foldl_nil]
      omega

theorem strptime_year_long {n : Nat} (h : 9999 < n) (rest : Bytes) (start : BrokenTime) :
    strptime (.field .year :: clockItems) (toDecimal n ++ SP :: rest) start = none := by
  have hlength : ¬ (toDecimal n).length ≤ 4 := fun hle => by
    have hlt := (length_toDecimal_le_iff (by decide)).1 hle
    omega
  have hdigits : ∀ c ∈ toDecimal n, isDigit c = true := fun c hc => isDigit_of_mem_toDecimal hc
  have hfour : ((toDecimal n).take 4).length = 4 := by
    rw [List.length_take]
    omega
  have htaken : ∀ c ∈ (toDecimal n).take 4, isDigit c = true := fun c hc =>
    hdigits c (List.mem_of_mem_take hc)
  have hvalue := digitsValue_lt htaken
  rw [hfour] at hvalue
  have hread : getNumber 0 9999 4
        ((toDecimal n).take 4 ++ ((toDecimal n).drop 4 ++ SP :: rest)) = _ :=
    getNumber_append (List.length_pos_iff.1 (by omega)) htaken hfour.le (Nat.zero_le _) (by omega)
      (by omega)
  rw [← List.append_assoc, List.take_append_drop] at hread
  simp only [strptime, DateItem.read, DateField.read, hread, Option.map_some, Option.bind_some]
  refine strptime_clockItems_digits ?_ (fun c hc => hdigits c (List.mem_of_mem_drop hc)) rest _
  rw [ne_eq, List.drop_eq_nil_iff]
  exact hlength

theorem intToDecimal_of_neg {n : Int} (h : n < 0) :
    HttpResponse.intToDecimal n = DASH :: toDecimal n.natAbs := if_pos h

theorem strptime_year_negative {n : Int} (h : n < 0) (items : List DateItem) (rest : Bytes)
    (start : BrokenTime) :
    strptime (.field .year :: items) (HttpResponse.intToDecimal n ++ rest) start = none := by
  rw [intToDecimal_of_neg h]
  rfl

/-- The blank in front of a year ends there. -/
theorem stops_intToDecimal (n : Int) (rest : Bytes) :
    (DateItem.char SP).Stops (HttpResponse.intToDecimal n ++ rest) := by
  rintro - c hc
  by_cases hsign : n < 0
  · rw [intToDecimal_of_neg hsign] at hc
    cases hc
    rfl
  · rw [intToDecimal_of_nonneg (Int.not_lt.1 hsign),
      List.head?_append_of_ne_nil _ (toDecimal_ne_nil _)] at hc
    exact Numeral.isSpace_of_isDigit (isDigit_of_mem_toDecimal (List.mem_of_head? hc))

theorem parseHttpDate_of_not_year (h : gmtime t = some tm) (hyear : ¬ DateField.year.InRange tm) :
    parseHttpDate (strftime httpDateItems tm) = none := by
  obtain ⟨rest, htext⟩ : ∃ rest, strftime httpDateItems tm =
      strftime dayItems tm ++ (HttpResponse.intToDecimal (tm.year + 1900) ++ SP :: rest) :=
    ⟨strftime clockItems.tail tm, by
      simp only [strftime, httpDateItems, List.flatMap_append, List.flatMap_cons]
      rfl⟩
  have hrange : ∀ item ∈ dayItems, item.InRange tm := by
    have hitems : ∀ item ∈ dayItems, item ≠ .field .year := by decide
    intro item hitem
    cases item with
    | char c => trivial
    | field f => exact inRange_of_gmtime h fun hf => hitems _ hitem (congrArg _ hf)
  have hstops : ∀ item ∈ dayItems.getLast?,
      item.Stops (HttpResponse.intToDecimal (tm.year + 1900) ++ SP :: rest) := by
    rintro _ ⟨⟩
    exact stops_intToDecimal _ _
  have hread := DateItem.strptime_strftime_append (by decide) hrange hstops
    (.field .year :: clockItems) {}
  rw [parseHttpDate_strftime, htext, httpDateItems, hread]
  by_cases hsign : tm.year + 1900 < 0
  · rw [strptime_year_negative hsign]
    rfl
  · have hlate : 9999 < (tm.year + 1900).natAbs := by
      by_contra hle
      exact hyear ⟨by omega, by omega⟩
    rw [intToDecimal_of_nonneg (Int.not_lt.1 hsign), strptime_year_long hlate]
    rfl

end

/-- The time is within the years that are written with at most four digits. -/
def Writable (t : Int) : Prop := -62167219200 ≤ t ∧ t < 253402300800

instance (t : Int) : Decidable (Writable t) := inferInstanceAs (Decidable (_ ∧ _))

theorem writable_iff_year (t : Int) :
    Writable t ↔
      0 ≤ (Date.ofNumber (t / 86400)).year ∧ (Date.ofNumber (t / 86400)).year ≤ 9999 := by
  have hvalid := Date.ofNumber_valid (t / 86400)
  rw [Date.year_nonneg_iff hvalid, Date.year_le_iff hvalid, Date.number_ofNumber, Writable]
  omega

/--
The date of a header is the time that it was made of if the calendar gives it a
year of at most four digits, and no date at all otherwise.
-/
theorem parseHttpDate_formatHttpDate (t : Int) :
    parseHttpDate (formatHttpDate t) = if Writable t then some t else none := by
  cases h : gmtime t with
  | none =>
      have hformat : formatHttpDate t = [] := by simp only [formatHttpDate, h]
      rw [hformat, if_neg]
      · rfl
      · rw [writable_iff_year]
        have hyear := gmtime_eq_none h
        omega
  | some tm =>
      have hyear : tm.year + 1900 = (Date.ofNumber (t / 86400)).year := (gmtime_eq_some h).2
      have hrange : Writable t ↔ DateField.year.InRange tm := by
        rw [writable_iff_year, ← hyear]
        rfl
      rw [formatHttpDate_of_gmtime h]
      split_ifs with hwritable
      · exact parseHttpDate_of_year h (hrange.1 hwritable)
      · exact parseHttpDate_of_not_year h fun htm => hwritable (hrange.2 htm)

end HttpDate

end CppHttpd
