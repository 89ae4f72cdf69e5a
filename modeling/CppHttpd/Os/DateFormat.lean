import CppHttpd.Foundation.Calendar
import CppHttpd.Os.Formatting

/-!
# Dates in text

`strftime` and `strptime` run through one format, each in its own way: what the
first one writes for a directive has a width of its own, and the second one takes
as much as it can.  It reads back what was written if the format puts something
between the directives that none of them goes on over.
-/

namespace CppHttpd

open CppHttpd.Foundation

/-! ## Broken-down times -/

/-- The members of `struct tm` that the directives below name. -/
structure BrokenTime where
  sec : Nat := 0
  min : Nat := 0
  hour : Nat := 0
  mday : Nat := 0
  mon : Nat := 0
  /-- Years since 1900. -/
  year : Int := 0
  wday : Nat := 0
  deriving DecidableEq

/-- `gmtime`, which fails where the year does not fit into an `int`. -/
def gmtime (t : Int) : Option BrokenTime :=
  let date := Date.ofNumber (t / 86400)
  let inDay := (t % 86400).toNat
  if date.year - 1900 < -2 ^ 31 ∨ 2 ^ 31 ≤ date.year - 1900 then none
  else
    some
      { sec := inDay % 60
        min := inDay / 60 % 60
        hour := inDay / 3600
        mday := date.day
        mon := date.month
        year := date.year - 1900
        -- The first of January 1970 was a Thursday.
        wday := ((t / 86400 + 4) % 7).toNat }

/-- `timegm`, which goes on counting where the day is behind the end of its month. -/
def timegm (tm : BrokenTime) : Int :=
  86400 * (Date.number ⟨tm.year + 1900, tm.mon, 1⟩ + (tm.mday - 1)) + 3600 * tm.hour +
    60 * tm.min + tm.sec

theorem gmtime_eq_some {t : Int} {tm : BrokenTime} (h : gmtime t = some tm) :
    timegm tm = t ∧ tm.year + 1900 = (Date.ofNumber (t / 86400)).year := by
  unfold gmtime at h
  dsimp only at h
  split_ifs at h
  cases h
  have hnumber := Date.number_ofNumber (t / 86400)
  have hfirst := Date.number_eq_first (Date.ofNumber_valid (t / 86400))
  have hday : (3600 * ((t % 86400).toNat / 3600) + 60 * ((t % 86400).toNat / 60 % 60) +
      (t % 86400).toNat % 60 : Nat) = (t % 86400).toNat := by omega
  simp only [timegm, Int.sub_add_cancel, and_true]
  omega

theorem gmtime_year {t : Int} {tm : BrokenTime} (h : gmtime t = some tm) :
    -2 ^ 31 ≤ tm.year ∧ tm.year < 2 ^ 31 := by
  unfold gmtime at h
  dsimp only at h
  split_ifs at h
  cases h
  dsimp only
  omega

theorem gmtime_eq_none {t : Int} (h : gmtime t = none) :
    (Date.ofNumber (t / 86400)).year - 1900 < -2 ^ 31 ∨
      2 ^ 31 ≤ (Date.ofNumber (t / 86400)).year - 1900 := by
  unfold gmtime at h
  dsimp only at h
  split_ifs at h with hyear
  exact hyear

def BrokenTime.date (tm : BrokenTime) : Date := ⟨tm.year + 1900, tm.mon, tm.mday⟩

/-- A day later it is the next day of the calendar and of the week, at the same time. -/
theorem gmtime_tomorrow {t : Int} {tm tm' : BrokenTime} (h : gmtime t = some tm)
    (h' : gmtime (t + 86400) = some tm') :
    tm'.date = tm.date.next ∧ tm'.wday = (tm.wday + 1) % 7 ∧ tm'.hour = tm.hour ∧
      tm'.min = tm.min ∧ tm'.sec = tm.sec := by
  have hday : (t + 86400) / 86400 = t / 86400 + 1 := by omega
  have htime : (t + 86400) % 86400 = t % 86400 := by omega
  unfold gmtime at h h'
  simp only [hday, htime] at h'
  dsimp only at h
  split_ifs at h h'
  cases h
  cases h'
  refine ⟨?_, ?_, rfl, rfl, rfl⟩
  · simp only [BrokenTime.date, Int.sub_add_cancel]
    exact Date.ofNumber_succ _
  · dsimp only
    omega

/-! ## The formats -/

inductive DateField where
  | weekday
  | monthDay
  | month
  | year
  | hour
  | minute
  | second
  deriving DecidableEq

inductive DateItem where
  | field (f : DateField)
  | char (c : Byte)
  deriving DecidableEq

/-- The directives are those of the C library that this one program uses. -/
def dateField (c : Byte) : Option DateField :=
  if c = byteOf 'a' then some .weekday
  else if c = byteOf 'd' then some .monthDay
  else if c = byteOf 'b' then some .month
  else if c = byteOf 'Y' then some .year
  else if c = byteOf 'H' then some .hour
  else if c = byteOf 'M' then some .minute
  else if c = byteOf 'S' then some .second
  else none

def dateItems : Bytes → Option (List DateItem)
  | [] => some []
  | [c] => if c = byteOf '%' then none else some [.char c]
  | c :: d :: format =>
      if c = byteOf '%' then
        (dateField d).bind fun f => (dateItems format).map (DateItem.field f :: ·)
      else (dateItems (d :: format)).map (DateItem.char c :: ·)

/-- The names of the locale "C", of which the first three letters are the short ones. -/
def weekdayNames : List Bytes :=
  ["Sunday", "Monday", "Tuesday", "Wednesday", "Thursday", "Friday", "Saturday"].map ascii

def monthNames : List Bytes :=
  ["January", "February", "March", "April", "May", "June", "July", "August", "September",
    "October", "November", "December"].map ascii

def printName (names : List Bytes) (i : Nat) : Bytes := ((names[i]?).getD (ascii "?")).take 3

def DateField.print (f : DateField) (tm : BrokenTime) : Bytes :=
  match f with
  | .weekday => printName weekdayNames tm.wday
  | .monthDay => zeroPadded 2 tm.mday
  | .month => printName monthNames tm.mon
  | .year => HttpResponse.intToDecimal (tm.year + 1900)
  | .hour => zeroPadded 2 tm.hour
  | .minute => zeroPadded 2 tm.min
  | .second => zeroPadded 2 tm.sec

def DateItem.print (item : DateItem) (tm : BrokenTime) : Bytes :=
  match item with
  | .field f => f.print tm
  | .char c => [c]

/-- `strftime` without the limit of its buffer. -/
def strftime (items : List DateItem) (tm : BrokenTime) : Bytes := items.flatMap (·.print tm)

/-! ## Reading -/

/-- A name is read in either case, and as a whole if it is there as a whole. -/
def beginsWithName (name s : Bytes) : Bool :=
  (s.take name.length).map toLowerByte = name.map toLowerByte

def readName (names : List Bytes) (s : Bytes) : Option (Nat × Bytes) :=
  (names.findIdx? fun name => beginsWithName (name.take 3) s).bind fun i =>
    (names[i]?).map fun name =>
      (i, s.drop (if beginsWithName name s then name.length else 3))

/-- No more digits are taken than `width`, nor one that would lead past the limit for sure. -/
def numberLoop (hi : Nat) : Nat → Nat → Bytes → Nat × Bytes
  | 0, val, s => (val, s)
  | _ + 1, val, [] => (val, [])
  | width + 1, val, c :: s =>
      if isDigit c ∧ val * 10 ≤ hi then numberLoop hi width (10 * val + (c.toNat - 48)) s
      else (val, c :: s)

def getNumber (lo hi width : Nat) (s : Bytes) : Option (Nat × Bytes) :=
  match s.dropWhile isSpace with
  | [] => none
  | c :: s =>
      if isDigit c then
        let (val, rest) := numberLoop hi (width - 1) (c.toNat - 48) s
        if lo ≤ val ∧ val ≤ hi then some (val, rest) else none
      else none

def DateField.read (f : DateField) (s : Bytes) (tm : BrokenTime) : Option (Bytes × BrokenTime) :=
  match f with
  | .weekday => (readName weekdayNames s).map fun (n, s) => (s, { tm with wday := n })
  | .monthDay => (getNumber 1 31 2 s).map fun (n, s) => (s, { tm with mday := n })
  | .month => (readName monthNames s).map fun (n, s) => (s, { tm with mon := n })
  | .year => (getNumber 0 9999 4 s).map fun (n, s) => (s, { tm with year := (n : Int) - 1900 })
  | .hour => (getNumber 0 23 2 s).map fun (n, s) => (s, { tm with hour := n })
  | .minute => (getNumber 0 59 2 s).map fun (n, s) => (s, { tm with min := n })
  | .second => (getNumber 0 61 2 s).map fun (n, s) => (s, { tm with sec := n })

def readChar (c : Byte) (s : Bytes) : Option Bytes :=
  if isSpace c then some (s.dropWhile isSpace)
  else
    match s with
    | [] => none
    | d :: s => if c = d then some s else none

def DateItem.read (item : DateItem) (s : Bytes) (tm : BrokenTime) : Option (Bytes × BrokenTime) :=
  match item with
  | .field f => f.read s tm
  | .char c => (readChar c s).map (·, tm)

/-- `strptime`: what is left of the text, and what the fields have been set to. -/
def strptime : List DateItem → Bytes → BrokenTime → Option (Bytes × BrokenTime)
  | [], s, tm => some (s, tm)
  | item :: items, s, tm =>
      (item.read s tm).bind fun (s, tm) => strptime items s tm

/-! ## Numbers -/

theorem isDigit_of_mem_zeroPadded {c : Byte} {width n : Nat} (h : c ∈ zeroPadded width n) :
    isDigit c = true := by
  rcases List.mem_append.1 h with hzero | hdigit
  · rw [List.eq_of_mem_replicate hzero]
    rfl
  · exact isDigit_of_mem_toDecimal hdigit

theorem digitsValue_append (s t : Bytes) :
    digitsValue (s ++ t) =
      t.foldl (fun val d => 10 * val + (d.toNat - 48)) (digitsValue s) :=
  List.foldl_append

theorem digitsValue_zeroPadded (width n : Nat) : digitsValue (zeroPadded width n) = n := by
  have hzeros : ∀ k, digitsValue (List.replicate k (byteOf '0')) = 0 := by
    intro k
    induction k with
    | zero => rfl
    | succ k ih =>
        rw [List.replicate_succ', digitsValue_append, ih]
        rfl
  rw [zeroPadded, digitsValue_append, hzeros]
  exact digitsValue_toDecimal n

theorem le_foldl_digits (digits : Bytes) (val : Nat) :
    val ≤ digits.foldl (fun val d => 10 * val + (d.toNat - 48)) val := by
  induction digits generalizing val with
  | nil => exact le_rfl
  | cons c digits ih =>
      have hstep : val ≤ 10 * val + (c.toNat - 48) := by omega
      exact hstep.trans (ih _)

/-- A number that is not above the limit is taken as a whole. -/
theorem numberLoop_append {hi width val : Nat} {digits rest : Bytes}
    (hdigits : ∀ c ∈ digits, isDigit c = true) (hwidth : digits.length ≤ width)
    (hbound : digits.foldl (fun val d => 10 * val + (d.toNat - 48)) val ≤ hi)
    (hrest : digits.length < width → ∀ c ∈ rest.head?, isDigit c = false) :
    numberLoop hi width val (digits ++ rest) =
      (digits.foldl (fun val d => 10 * val + (d.toNat - 48)) val, rest) := by
  induction digits generalizing width val with
  | nil =>
      cases width with
      | zero => rfl
      | succ width =>
          cases rest with
          | nil => rfl
          | cons c rest =>
              have hc : isDigit c = false := hrest (Nat.succ_pos _) c rfl
              simp [numberLoop, hc]
  | cons c digits ih =>
      obtain ⟨hc, hdigits⟩ := List.forall_mem_cons.1 hdigits
      rw [List.length_cons] at hwidth hrest
      obtain ⟨width, rfl⟩ : ∃ w, width = w + 1 := ⟨width - 1, by omega⟩
      have hval : val * 10 ≤ hi := by
        have hle := (le_foldl_digits digits (10 * val + (c.toNat - 48))).trans hbound
        omega
      rw [List.cons_append, numberLoop, if_pos ⟨hc, hval⟩]
      exact ih hdigits (by omega) hbound fun hlt => hrest (by omega)

theorem getNumber_append {lo hi width : Nat} {digits rest : Bytes} (hne : digits ≠ [])
    (hdigits : ∀ c ∈ digits, isDigit c = true) (hwidth : digits.length ≤ width)
    (hlo : lo ≤ digitsValue digits) (hhi : digitsValue digits ≤ hi)
    (hrest : digits.length < width → ∀ c ∈ rest.head?, isDigit c = false) :
    getNumber lo hi width (digits ++ rest) = some (digitsValue digits, rest) := by
  obtain ⟨c, digits, rfl⟩ := List.exists_cons_of_ne_nil hne
  obtain ⟨hc, hdigits⟩ := List.forall_mem_cons.1 hdigits
  rw [List.length_cons] at hwidth hrest
  have hvalue : digitsValue (c :: digits) =
      digits.foldl (fun val d => 10 * val + (d.toNat - 48)) (c.toNat - 48) := by
    simp [digitsValue]
  have hspace : ((c :: digits) ++ rest).dropWhile isSpace = c :: (digits ++ rest) :=
    List.dropWhile_cons_of_neg (by simp [Numeral.isSpace_of_isDigit hc])
  have hloop : numberLoop hi (width - 1) (c.toNat - 48) (digits ++ rest) = _ :=
    numberLoop_append hdigits (by omega) (hvalue ▸ hhi) fun hlt => hrest (by omega)
  rw [hvalue] at hlo hhi ⊢
  simp only [getNumber, hspace, hc, if_true, hloop]
  rw [if_pos ⟨hlo, hhi⟩]

/-! ## Names -/

def isAlnum (c : Byte) : Bool := isDigit c || 97 ≤ toLowerByte c && toLowerByte c ≤ 122

theorem isAlnum_toLowerByte (c : Byte) : isAlnum (toLowerByte c) = isAlnum c := by
  have hall : ∀ n : Fin 256, isAlnum (toLowerByte (UInt8.ofNat n)) = isAlnum (UInt8.ofNat n) := by
    decide +kernel
  have hbyte := hall ⟨c.toNat, c.toNat_lt⟩
  rwa [UInt8.ofNat_toNat] at hbyte

/-- The short names tell the names apart. -/
structure NameTable (names : List Bytes) : Prop where
  distinct : names.Pairwise fun a b => (a.take 3).map toLowerByte ≠ (b.take 3).map toLowerByte
  long : ∀ name ∈ names, 3 ≤ name.length
  letters : ∀ name ∈ names, ∀ c ∈ name, isAlnum c = true

theorem forall_letters_of_all {names : List Bytes}
    (h : names.all (fun name => name.all isAlnum) = true) :
    ∀ name ∈ names, ∀ c ∈ name, isAlnum c = true := by simpa using h

theorem weekdayNames_table : NameTable weekdayNames :=
  ⟨by decide, by decide, forall_letters_of_all (by decide)⟩

theorem monthNames_table : NameTable monthNames :=
  ⟨by decide, by decide, forall_letters_of_all (by decide)⟩

theorem printName_of_lt {names : List Bytes} {i : Nat} (h : i < names.length) :
    printName names i = names[i].take 3 := by
  rw [printName, List.getElem?_eq_getElem h, Option.getD_some]

theorem readName_printName {names : List Bytes} (hnames : NameTable names) {i : Nat}
    (h : i < names.length) {rest : Bytes} (hrest : ∀ c ∈ rest.head?, isAlnum c = false) :
    readName names (printName names i ++ rest) = some (i, rest) := by
  have hlong : ∀ j (hj : j < names.length), 3 ≤ names[j].length := fun j hj =>
    hnames.long _ (List.getElem_mem hj)
  have hthree : ∀ j (hj : j < names.length), (names[j].take 3).length = 3 := fun j hj => by
    rw [List.length_take]
    exact Nat.min_eq_left (hlong j hj)
  have hbegins : ∀ j (hj : j < names.length),
      beginsWithName (names[j].take 3) (printName names i ++ rest) = true ↔
        (names[i].take 3).map toLowerByte = (names[j].take 3).map toLowerByte := by
    intro j hj
    unfold beginsWithName
    rw [printName_of_lt h, hthree j hj, List.take_left' (hthree i h), decide_eq_true_eq]
  have hfind : (names.findIdx? fun name =>
      beginsWithName (name.take 3) (printName names i ++ rest)) = some i := by
    rw [List.findIdx?_eq_some_iff_getElem]
    refine ⟨h, (hbegins i h).2 rfl, fun j hj hmatch => ?_⟩
    exact List.pairwise_iff_getElem.1 hnames.distinct j i _ h hj
      ((hbegins j _).1 hmatch).symm
  have hdrop : (printName names i ++ rest).drop 3 = rest := by
    rw [printName_of_lt h]
    exact List.drop_left' (hthree i h)
  -- The long name is there only if it is the short one.
  have hwhole : beginsWithName names[i] (printName names i ++ rest) = true →
      names[i].length = 3 := by
    intro hbegin
    by_contra hlen
    have hlonger : 3 < names[i].length := lt_of_le_of_ne (hlong i h) (Ne.symm hlen)
    have hbytes : ((printName names i ++ rest).take names[i].length).map toLowerByte =
        names[i].map toLowerByte := of_decide_eq_true hbegin
    have hfourth := congrArg (·[3]?) hbytes
    have hat : (printName names i ++ rest)[3]? = rest.head? := by
      rw [printName_of_lt h, List.getElem?_append_right (hthree i h).le, hthree i h,
        Nat.sub_self, List.head?_eq_getElem?]
    simp only [List.getElem?_map, List.getElem?_take, if_pos hlonger, hat,
      List.getElem?_eq_getElem hlonger, Option.map_some, Option.map_eq_some_iff] at hfourth
    obtain ⟨c, hc, hlower⟩ := hfourth
    have hletter := hnames.letters _ (List.getElem_mem h) _ (List.getElem_mem hlonger)
    rw [← isAlnum_toLowerByte, ← hlower, isAlnum_toLowerByte, hrest c hc] at hletter
    cases hletter
  simp only [readName, hfind, Option.bind_some, List.getElem?_eq_getElem h, Option.map_some]
  split_ifs with hbegin
  · rw [hwhole hbegin, hdrop]
  · rw [hdrop]

/-! ## What is written is read back -/

namespace DateField

/-- The field has one of the values that can be read. -/
def InRange (f : DateField) (tm : BrokenTime) : Prop :=
  match f with
  | .weekday => tm.wday < 7
  | .monthDay => 1 ≤ tm.mday ∧ tm.mday ≤ 31
  | .month => tm.mon < 12
  | .year => 0 ≤ tm.year + 1900 ∧ tm.year + 1900 ≤ 9999
  | .hour => tm.hour ≤ 23
  | .minute => tm.min ≤ 59
  | .second => tm.sec ≤ 61

def copy (tm start : BrokenTime) : DateField → BrokenTime
  | .weekday => { start with wday := tm.wday }
  | .monthDay => { start with mday := tm.mday }
  | .month => { start with mon := tm.mon }
  | .year => { start with year := tm.year }
  | .hour => { start with hour := tm.hour }
  | .minute => { start with min := tm.min }
  | .second => { start with sec := tm.sec }

end DateField

theorem isDigit_eq_false_of_isAlnum {c : Byte} (h : isAlnum c = false) : isDigit c = false :=
  (Bool.or_eq_false_iff.1 h).1

theorem getNumber_zeroPadded {lo hi n : Nat} {rest : Bytes} (hlo : lo ≤ n) (hhi : n ≤ hi)
    (hsmall : hi < 100) : getNumber lo hi 2 (zeroPadded 2 n ++ rest) = some (n, rest) := by
  have hlength : (zeroPadded 2 n).length = 2 :=
    length_zeroPadded (by decide) (hhi.trans_lt hsmall)
  have hvalue := digitsValue_zeroPadded 2 n
  have hread : getNumber lo hi 2 (zeroPadded 2 n ++ rest) = _ :=
    getNumber_append (List.length_pos_iff.1 (by omega))
      (fun c hc => isDigit_of_mem_zeroPadded hc) hlength.le (by omega) (by omega)
      fun hlt => absurd hlength hlt.ne
  rwa [hvalue] at hread

theorem getNumber_year {n : Nat} {rest : Bytes} (h : n ≤ 9999)
    (hrest : ∀ c ∈ rest.head?, isDigit c = false) :
    getNumber 0 9999 4 (toDecimal n ++ rest) = some (n, rest) := by
  have hlength : (toDecimal n).length ≤ 4 :=
    (length_toDecimal_le_iff (by decide)).2 (Nat.lt_succ_of_le h)
  have hread : getNumber 0 9999 4 (toDecimal n ++ rest) = _ :=
    getNumber_append (toDecimal_ne_nil n) (fun c hc => isDigit_of_mem_toDecimal hc) hlength
      (Nat.zero_le _) (by rwa [digitsValue_toDecimal]) fun _ => hrest
  rwa [digitsValue_toDecimal] at hread

theorem intToDecimal_of_nonneg {n : Int} (h : 0 ≤ n) :
    HttpResponse.intToDecimal n = toDecimal n.natAbs := if_neg (Int.not_lt.2 h)

theorem DateField.read_print {f : DateField} {tm : BrokenTime} (h : f.InRange tm) {rest : Bytes}
    (hrest : ∀ c ∈ rest.head?, isAlnum c = false) (start : BrokenTime) :
    f.read (f.print tm ++ rest) start = some (rest, f.copy tm start) := by
  cases f with
  | weekday =>
      simp only [read, print, copy, readName_printName weekdayNames_table h hrest, Option.map_some]
  | monthDay =>
      simp only [read, print, copy, getNumber_zeroPadded h.1 h.2 (by decide), Option.map_some]
  | month =>
      simp only [read, print, copy, readName_printName monthNames_table h hrest, Option.map_some]
  | year =>
      obtain ⟨hlo, hhi⟩ := h
      have hsmall : (tm.year + 1900).natAbs ≤ 9999 := by omega
      have hyear : (((tm.year + 1900).natAbs : Nat) : Int) - 1900 = tm.year := by omega
      simp only [read, print, copy, intToDecimal_of_nonneg hlo, getNumber_year hsmall
        fun c hc => isDigit_eq_false_of_isAlnum (hrest c hc), Option.map_some, hyear]
  | hour =>
      simp only [read, print, copy, getNumber_zeroPadded (Nat.zero_le _) h (by decide),
        Option.map_some]
  | minute =>
      simp only [read, print, copy, getNumber_zeroPadded (Nat.zero_le _) h (by decide),
        Option.map_some]
  | second =>
      simp only [read, print, copy, getNumber_zeroPadded (Nat.zero_le _) h (by decide),
        Option.map_some]

namespace DateItem

/-- Behind the item nothing comes that it would go on over. -/
def Stops (item : DateItem) (rest : Bytes) : Prop :=
  match item with
  | .field _ => ∀ c ∈ rest.head?, isAlnum c = false
  | .char c => isSpace c = true → ∀ d ∈ rest.head?, isSpace d = false

/-- A directive ends at a character, and blanks end at anything else. -/
def follows : DateItem → DateItem → Bool
  | .field _, .field _ => false
  | .field _, .char c => !isAlnum c
  | .char _, .field _ => true
  | .char c, .char d => !(isSpace c && isSpace d)

def InRange (item : DateItem) (tm : BrokenTime) : Prop :=
  match item with
  | .field f => f.InRange tm
  | .char _ => True

def copy (tm start : BrokenTime) : DateItem → BrokenTime
  | .field f => f.copy tm start
  | .char _ => start

theorem read_print {item : DateItem} {tm : BrokenTime} (h : item.InRange tm) {rest : Bytes}
    (hstops : item.Stops rest) (start : BrokenTime) :
    item.read (item.print tm ++ rest) start = some (rest, item.copy tm start) := by
  cases item with
  | field f => exact DateField.read_print h hstops start
  | char c =>
      have hchar : readChar c (c :: rest) = some rest := by
        unfold readChar
        cases hspace : isSpace c with
        | false => simp
        | true =>
            have hdrop : (c :: rest).dropWhile isSpace = rest := by
              rw [List.dropWhile_cons_of_pos hspace]
              cases rest with
              | nil => rfl
              | cons d rest =>
                  exact List.dropWhile_cons_of_neg (by simp [hstops hspace d rfl])
            rw [if_pos rfl, hdrop]
      exact congrArg (Option.map _) hchar

end DateItem

theorem exists_cons_printName {names : List Bytes} (hnames : NameTable names) {i : Nat}
    (h : i < names.length) : ∃ c rest, printName names i = c :: rest ∧ isAlnum c = true := by
  have hmem := List.getElem_mem h
  have hne : names[i].take 3 ≠ [] := by
    have hlong := hnames.long _ hmem
    rw [ne_eq, List.take_eq_nil_iff, ← List.length_eq_zero_iff]
    omega
  obtain ⟨c, rest, hcons⟩ := List.exists_cons_of_ne_nil hne
  refine ⟨c, rest, (printName_of_lt h).trans hcons, hnames.letters _ hmem c ?_⟩
  exact List.mem_of_mem_take (hcons ▸ List.mem_cons_self : c ∈ names[i].take 3)

theorem exists_cons_digits {digits : Bytes} (hne : digits ≠ [])
    (hdigits : ∀ c ∈ digits, isDigit c = true) :
    ∃ c rest, digits = c :: rest ∧ isAlnum c = true := by
  obtain ⟨c, rest, rfl⟩ := List.exists_cons_of_ne_nil hne
  exact ⟨c, rest, rfl, Bool.or_eq_true_iff.2 (.inl (hdigits c List.mem_cons_self))⟩

theorem exists_cons_zeroPadded (n : Nat) :
    ∃ c rest, zeroPadded 2 n = c :: rest ∧ isAlnum c = true :=
  exists_cons_digits (List.append_ne_nil_of_right_ne_nil _ (toDecimal_ne_nil n))
    fun _ hc => isDigit_of_mem_zeroPadded hc

theorem DateField.exists_cons_print {f : DateField} {tm : BrokenTime} (h : f.InRange tm) :
    ∃ c rest, f.print tm = c :: rest ∧ isAlnum c = true := by
  cases f with
  | weekday => exact exists_cons_printName weekdayNames_table h
  | monthDay => exact exists_cons_zeroPadded _
  | month => exact exists_cons_printName monthNames_table h
  | year =>
      rw [print, intToDecimal_of_nonneg h.1]
      exact exists_cons_digits (toDecimal_ne_nil _) fun _ hc => isDigit_of_mem_toDecimal hc
  | hour => exact exists_cons_zeroPadded _
  | minute => exact exists_cons_zeroPadded _
  | second => exact exists_cons_zeroPadded _

theorem isSpace_eq_false_of_isAlnum {c : Byte} (h : isAlnum c = true) : isSpace c = false := by
  have hall : ∀ n : Fin 256, isAlnum (UInt8.ofNat n) = true →
      isSpace (UInt8.ofNat n) = false := by
    decide +kernel
  have hbyte := hall ⟨c.toNat, c.toNat_lt⟩
  rw [UInt8.ofNat_toNat] at hbyte
  exact hbyte h

namespace DateItem

theorem stops_print {item next : DateItem} {tm : BrokenTime} (hfollows : item.follows next = true)
    (hrange : next.InRange tm) (rest : Bytes) : item.Stops (next.print tm ++ rest) := by
  cases next with
  | field f =>
      obtain ⟨c, tail, hprint, hc⟩ := DateField.exists_cons_print hrange
      cases item with
      | field g => cases hfollows
      | char d =>
          rintro - e he
          simp only [print, hprint, List.cons_append, List.head?_cons, Option.mem_def,
            Option.some.injEq] at he
          exact he ▸ isSpace_eq_false_of_isAlnum hc
  | char c =>
      cases item with
      | field g =>
          rintro d ⟨⟩
          simpa only [follows, Bool.not_eq_true'] using hfollows
      | char b =>
          rintro hspace d ⟨⟩
          simpa only [follows, hspace, Bool.true_and, Bool.not_eq_true'] using hfollows

/-- `strptime` goes through a part of the format and leaves the text of the others. -/
theorem strptime_strftime_append {items : List DateItem} {tm : BrokenTime}
    (hchain : items.IsChain (follows · · = true)) (hrange : ∀ item ∈ items, item.InRange tm)
    {rest : Bytes} (hstops : ∀ item ∈ items.getLast?, item.Stops rest) (more : List DateItem)
    (start : BrokenTime) :
    strptime (items ++ more) (strftime items tm ++ rest) start =
      strptime more rest (items.foldl (fun start item => item.copy tm start) start) := by
  induction items generalizing start with
  | nil => rfl
  | cons item items ih =>
      obtain ⟨hitem, hitems⟩ := List.forall_mem_cons.1 hrange
      have hnext : item.Stops (strftime items tm ++ rest) := by
        cases items with
        | nil => exact hstops item rfl
        | cons next items =>
            rw [strftime, List.flatMap_cons, List.append_assoc]
            exact stops_print (List.isChain_cons_cons.1 hchain).1
              (hitems next List.mem_cons_self) _
      have hprint : strftime (item :: items) tm ++ rest =
          item.print tm ++ (strftime items tm ++ rest) := by
        simp only [strftime, List.flatMap_cons, List.append_assoc]
      have hlast : ∀ last ∈ items.getLast?, last.Stops rest := by
        intro last hlast
        refine hstops last ?_
        rw [List.getLast?_cons, Option.mem_def.1 hlast]
        rfl
      rw [hprint, List.cons_append, strptime, read_print hitem hnext, Option.bind_some,
        List.foldl_cons]
      exact ih hchain.of_cons hitems hlast _

end DateItem

end CppHttpd
