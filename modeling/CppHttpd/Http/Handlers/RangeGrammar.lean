import CppHttpd.Foundation.Numerals
import CppHttpd.Http.Handlers.RangeRequests

/-!
# The grammar of ranges

A single range is written `bytes=a-b`, `bytes=a-` or `bytes=-k`, with digits and
nothing else.  `parse_range` gives `std::stoull` what stands on either side of
the first dash, so it reads more than that; and an end behind the file makes the
range invalid, where it should only be cut.
-/

namespace CppHttpd

open CppHttpd.Foundation

theorem checkRange_lastPosition (start fileSize : Nat) :
    checkRange start (lastPosition fileSize) fileSize =
      if start < fileSize then some (start, fileSize - 1) else none := by
  have hlast : lastPosition fileSize = fileSize - 1 := by
    unfold lastPosition
    split_ifs <;> omega
  rw [hlast, checkRange]
  by_cases hstart : start < fileSize
  · rw [if_pos hstart, if_neg (by omega)]
  · rw [if_neg hstart, if_pos (by omega)]

/-! ## Well-formed ranges -/

inductive RangeForm where
  | bounded (first last : Nat)
  | openEnded (first : Nat)
  | suffix (length : Nat)
  deriving DecidableEq, Repr

namespace RangeForm

/-- The header value writes the range, with numbers below `2 ^ 64`. -/
inductive Writes : RangeForm → Bytes → Prop
  | bounded {first last : Bytes} {a b : Nat} (hfirst : decimalValue first = some a)
      (hlast : decimalValue last = some b) (ha : a < 2 ^ 64) (hb : b < 2 ^ 64) :
      Writes (.bounded a b) (byteRange first last)
  | openEnded {first : Bytes} {a : Nat} (hfirst : decimalValue first = some a)
      (ha : a < 2 ^ 64) : Writes (.openEnded a) (byteRange first [])
  | suffix {last : Bytes} {k : Nat} (hlast : decimalValue last = some k) (hk : k < 2 ^ 64) :
      Writes (.suffix k) (byteRange [] last)

/-- The positions that the range selects of a file; `none` cannot be satisfied. -/
def select (fileSize : Nat) : RangeForm → Option (Nat × Nat)
  | .bounded a b => if a ≤ b ∧ a < fileSize then some (a, min b (fileSize - 1)) else none
  | .openEnded a => if a < fileSize then some (a, fileSize - 1) else none
  | .suffix k =>
      if 0 < k ∧ 0 < fileSize then some (fileSize - min k fileSize, fileSize - 1) else none

/-- The range begins within the file, and ends behind it. -/
def RunsOver (fileSize : Nat) (form : RangeForm) : Prop :=
  ∃ a b, form = .bounded a b ∧ a < fileSize ∧ fileSize ≤ b

/-- What `parse_range` makes of the range. -/
def parsed (fileSize : Nat) : RangeForm → Option (Nat × Nat)
  | .bounded a b => checkRange a b fileSize
  | .openEnded a => checkRange a (lastPosition fileSize) fileSize
  | .suffix k =>
      checkRange (if k ≥ fileSize then 0 else fileSize - k) (lastPosition fileSize) fileSize

section

variable {header : Bytes} {form : RangeForm} {fileSize : Nat}

theorem dash_notMem_of_decimalValue {s : Bytes} {n : Nat} (h : decimalValue s = some n) :
    DASH ∉ s := by
  intro hmem
  unfold decimalValue at h
  split_ifs at h with hs
  have hdash : isDigit DASH = true := List.all_eq_true.1 hs.2 DASH hmem
  cases hdash

theorem ne_nil_of_decimalValue {s : Bytes} {n : Nat} (h : decimalValue s = some n) : s ≠ [] := by
  rintro rfl
  cases h

theorem stoull_of_decimalValue {s : Bytes} {n : Nat} (h : decimalValue s = some n)
    (hn : n < 2 ^ 64) : stoull s = .ok n :=
  Numeral.stoull_eq_ok_iff.2 (Numeral.reads_of_decimalValue h hn)

theorem parseRange_of_writes (h : form.Writes header) (fileSize : Nat) :
    parseRange header fileSize = .ok (form.parsed fileSize) := by
  cases h with
  | bounded hfirst hlast ha hb =>
      rw [parseRange_byteRange (dash_notMem_of_decimalValue hfirst)]
      simp only [ne_nil_of_decimalValue hfirst, ne_nil_of_decimalValue hlast, and_self, if_false,
        stoull_of_decimalValue hfirst ha, stoull_of_decimalValue hlast hb]
      rfl
  | openEnded hfirst ha =>
      rw [parseRange_byteRange (dash_notMem_of_decimalValue hfirst)]
      simp only [ne_nil_of_decimalValue hfirst, false_and, if_false,
        stoull_of_decimalValue hfirst ha]
      rfl
  | suffix hlast hk =>
      rw [parseRange_byteRange List.not_mem_nil]
      simp only [ne_nil_of_decimalValue hlast, and_false, if_false, if_true,
        stoull_of_decimalValue hlast hk]
      rfl

/-- An end behind the file is the only thing that `parse_range` takes differently. -/
theorem parsed_eq_select (form : RangeForm) (fileSize : Nat) :
    (¬ form.RunsOver fileSize ∧ form.parsed fileSize = form.select fileSize) ∨
      (form.RunsOver fileSize ∧ form.parsed fileSize = none ∧
        (form.select fileSize).isSome) := by
  cases form with
  | bounded a b =>
      by_cases hover : a < fileSize ∧ fileSize ≤ b
      · refine Or.inr ⟨⟨a, b, rfl, hover⟩, ?_, ?_⟩
        · exact if_pos (Or.inr hover.2)
        · have hselect : a ≤ b ∧ a < fileSize := by omega
          simp [select, hselect]
      · refine Or.inl ⟨?_, ?_⟩
        · rintro ⟨a', b', hform, hover'⟩
          cases hform
          exact hover hover'
        · simp only [parsed, checkRange, select]
          by_cases hvalid : a ≤ b ∧ a < fileSize
          · have hlast : min b (fileSize - 1) = b := by omega
            rw [if_neg (by omega), if_pos hvalid, hlast]
          · rw [if_pos (by omega), if_neg hvalid]
  | openEnded a =>
      have hover : ¬ RunsOver fileSize (.openEnded a) := by
        rintro ⟨_, _, hform, -⟩
        cases hform
      refine Or.inl ⟨hover, ?_⟩
      exact checkRange_lastPosition a fileSize
  | suffix k =>
      have hover : ¬ RunsOver fileSize (.suffix k) := by
        rintro ⟨_, _, hform, -⟩
        cases hform
      refine Or.inl ⟨hover, ?_⟩
      rw [parsed, checkRange_lastPosition, select]
      by_cases hvalid : 0 < k ∧ 0 < fileSize
      · have hstart : (if k ≥ fileSize then 0 else fileSize - k) = fileSize - min k fileSize := by
          split_ifs <;> omega
        rw [hstart, if_pos (by omega), if_pos hvalid]
      · have hstart : ¬ (if k ≥ fileSize then 0 else fileSize - k) < fileSize := by
          split_ifs <;> omega
        rw [if_neg hstart, if_neg hvalid]

end

end RangeForm

/-! ## The response -/

def rangeAnswer (env : Environment) (path : Bytes) (st : Stat) (fd : Fd) :
    Option (Nat × Nat) → HttpResponse
  | none => rangeNotSatisfiable st
  | some (start, last) => rangeResponse env path st fd start last

section

variable {env : Environment} {path : Bytes} {request : HttpRequest} {s : OsState} {st : Stat}
  {fd : Fd} {s' : OsState}

theorem serveOpenFile_answer {range : Option (Nat × Nat)}
    (hpresent : getHeader request.headers (ascii "range") ≠ [])
    (h : parseRange (getHeader request.headers (ascii "range")) st.size = .ok range) :
    (serveOpenFile env path request st fd s).1 = .ok (rangeAnswer env path st fd range) := by
  unfold serveOpenFile
  dsimp only
  rw [if_pos hpresent, h]
  cases range <;> rfl

theorem byteRange_ne_nil (first last : Bytes) : byteRange first last ≠ [] := by
  simp [byteRange, ascii]

theorem RangeForm.Writes.ne_nil {header : Bytes} {form : RangeForm} (h : form.Writes header) :
    header ≠ [] := by
  cases h <;> exact byteRange_ne_nil _ _

/--
A well-formed range is answered with the part of the file that it selects, exactly
unless it begins within the file and ends behind it.
-/
theorem serveStaticFile_select_iff {form : RangeForm} (hopens : Opens env path request s st fd s')
    (hwrites : form.Writes (getHeader request.headers (ascii "range"))) :
    (serveStaticFile env path request s).1 =
        .ok (rangeAnswer env path st fd (form.select st.size)) ↔
      ¬ form.RunsOver st.size := by
  rw [hopens.serveStaticFile_eq,
    serveOpenFile_answer hwrites.ne_nil (RangeForm.parseRange_of_writes hwrites st.size)]
  rcases form.parsed_eq_select st.size with ⟨hfits, hsame⟩ | ⟨hover, hnone, hselect⟩
  · exact iff_of_true (by rw [hsame]) hfits
  · refine iff_of_false ?_ (not_not_intro hover)
    obtain ⟨range, hrange⟩ := Option.isSome_iff_exists.1 hselect
    intro heq
    rw [hnone, hrange] at heq
    cases congrArg (Except.map HttpResponse.statusCode) heq

end

def hello : FileSystem := .flat [(ascii "a.txt", ascii "hello")]

def rangeRequest (header : Bytes) : HttpRequest :=
  { uri := ascii "/a.txt", headers := AList.singleton (ascii "range") header }

theorem hello_opens (header : Bytes) :
    Opens (.still hello fun _ => .forkFailed) (ascii "/a.txt") (rangeRequest header) {}
      (hello.stat 1) 3 { openFds := [3], accesses := [.served 1] } where
  stat := by rfl
  regular := by rfl
  modified := by rfl
  acceptable := by rfl
  opened := by rfl

theorem serveStaticFile_select_iff_suffix :
    (serveStaticFile (.still hello fun _ => .forkFailed) (ascii "/a.txt")
        (rangeRequest (ascii "bytes=-9")) {}).1 =
      .ok (rangeResponse (.still hello fun _ => .forkFailed) (ascii "/a.txt") (hello.stat 1) 3
        0 4) := by
  have hlast : decimalValue (ascii "9") = some 9 := by decide
  have hwrites : RangeForm.Writes (.suffix 9) (ascii "bytes=-9") := .suffix hlast (by decide)
  refine (serveStaticFile_select_iff (hello_opens _) hwrites).2 ?_
  rintro ⟨_, _, hform, -⟩
  cases hform

theorem end_behind_file_refused :
    RangeForm.Writes (.bounded 2 9) (ascii "bytes=2-9") ∧
      RangeForm.select (hello.stat 1).size (.bounded 2 9) = some (2, 4) ∧
      (serveStaticFile (.still hello fun _ => .forkFailed) (ascii "/a.txt")
          (rangeRequest (ascii "bytes=2-9")) {}).1 = .ok (rangeNotSatisfiable (hello.stat 1)) := by
  have hfirst : decimalValue (ascii "2") = some 2 := by decide
  have hlast : decimalValue (ascii "9") = some 9 := by decide
  have hwrites : RangeForm.Writes (.bounded 2 9) (ascii "bytes=2-9") :=
    .bounded hfirst hlast (by decide) (by decide)
  have hparse : parseRange (getHeader (rangeRequest (ascii "bytes=2-9")).headers (ascii "range"))
      (hello.stat 1).size = .ok none := RangeForm.parseRange_of_writes hwrites _
  refine ⟨hwrites, by decide, ?_⟩
  rw [(hello_opens _).serveStaticFile_eq]
  exact serveOpenFile_answer (by decide) hparse

/-! ## Malformed ranges -/

/-- Digits on at least one side of a dash, and nothing else. -/
def WellFormedRange (header : Bytes) : Prop :=
  ∃ first last, header = byteRange first last ∧ first.all isDigit = true ∧
    last.all isDigit = true ∧ ¬ (first = [] ∧ last = [])

theorem WellFormedRange.mem {header : Bytes} (h : WellFormedRange header) {c : Byte}
    (hc : c ∈ header.drop 6) : isDigit c = true ∨ c = DASH := by
  obtain ⟨first, last, rfl, hfirst, hlast, -⟩ := h
  have hspec : (byteRange first last).drop 6 = first ++ DASH :: last := rfl
  rw [hspec, List.mem_append, List.mem_cons] at hc
  rcases hc with hc | rfl | hc
  · exact Or.inl (List.all_eq_true.1 hfirst c hc)
  · exact Or.inr rfl
  · exact Or.inl (List.all_eq_true.1 hlast c hc)

/-- What is read on either side of a dash names a part of the file. -/
inductive NamesPart (fileSize : Nat) : Bytes → Bytes → Prop
  | bounded {first last : Bytes} {a b : Nat} (hfirst : Numeral.Reads first a)
      (hlast : Numeral.Reads last b) (hordered : a ≤ b) (hwithin : b < fileSize) :
      NamesPart fileSize first last
  | openEnded {first : Bytes} {a : Nat} (hfirst : Numeral.Reads first a)
      (hwithin : a < fileSize) : NamesPart fileSize first []
  | suffix {last : Bytes} {k : Nat} (hlast : Numeral.Reads last k) (hpos : 0 < k)
      (hsize : 0 < fileSize) : NamesPart fileSize [] last

/-- A malformed range that passes all the same. -/
structure LenientRange (header : Bytes) (fileSize : Nat) : Prop where
  malformed : ¬ WellFormedRange header
  names : ∃ first last, DASH ∉ first ∧ header = byteRange first last ∧
    NamesPart fileSize first last

section

variable {first last : Bytes} {fileSize : Nat}

theorem checkRange_eq_some_iff {start last : Nat} {range : Nat × Nat} :
    checkRange start last fileSize = some range ↔
      (start ≤ last ∧ last < fileSize) ∧ range = (start, last) := by
  unfold checkRange
  split_ifs with hout
  · exact iff_of_false (by simp) (by omega)
  · rw [Option.some.injEq, eq_comm]
    exact (and_iff_right (by omega)).symm

theorem NamesPart.parseRange (hdash : DASH ∉ first) (h : NamesPart fileSize first last) :
    ∃ range, CppHttpd.parseRange (byteRange first last) fileSize = .ok (some range) := by
  rw [parseRange_byteRange hdash]
  cases h with
  | bounded hfirst hlast hordered hwithin =>
      simp only [hfirst.ne_nil, hlast.ne_nil, and_self, if_false,
        Numeral.stoull_eq_ok_iff.2 hfirst, Numeral.stoull_eq_ok_iff.2 hlast]
      exact ⟨_, congrArg Except.ok (checkRange_eq_some_iff.2 ⟨⟨hordered, hwithin⟩, rfl⟩)⟩
  | openEnded hfirst hwithin =>
      simp only [hfirst.ne_nil, false_and, if_false, Numeral.stoull_eq_ok_iff.2 hfirst]
      exact ⟨_, congrArg Except.ok ((checkRange_lastPosition _ _).trans (if_pos hwithin))⟩
  | suffix hlast hpos hsize =>
      simp only [hlast.ne_nil, and_false, if_false, if_true, Numeral.stoull_eq_ok_iff.2 hlast]
      exact ⟨_, congrArg Except.ok ((checkRange_lastPosition _ _).trans
        (if_pos (by split_ifs <;> omega)))⟩

theorem namesPart_of_parseRange {range : Nat × Nat} (hdash : DASH ∉ first)
    (h : parseRange (byteRange first last) fileSize = .ok (some range)) :
    NamesPart fileSize first last := by
  rw [parseRange_byteRange hdash] at h
  split_ifs at h with hnone hfirst hlast
  · cases h
  · subst hfirst
    obtain ⟨k, hvalue, hrange⟩ := exists_of_map_eq_ok h
    rw [checkRange_lastPosition] at hrange
    split_ifs at hrange
    · refine .suffix (Numeral.stoull_eq_ok_iff.1 hvalue) ?_ ?_ <;> omega
    · refine .suffix (Numeral.stoull_eq_ok_iff.1 hvalue) ?_ ?_ <;> omega
  · subst hlast
    obtain ⟨a, hstart, hrange⟩ := exists_of_bind_eq_ok h
    rw [checkRange_lastPosition] at hrange
    split_ifs at hrange with hwithin
    · exact .openEnded (Numeral.stoull_eq_ok_iff.1 hstart) hwithin
    · cases hrange
  · obtain ⟨a, hstart, hrest⟩ := exists_of_bind_eq_ok h
    obtain ⟨b, hend, hrange⟩ := exists_of_map_eq_ok hrest
    obtain ⟨⟨hordered, hwithin⟩, -⟩ := checkRange_eq_some_iff.1 hrange
    exact .bounded (Numeral.stoull_eq_ok_iff.1 hstart) (Numeral.stoull_eq_ok_iff.1 hend)
      hordered hwithin

theorem parseRange_valid_iff {header : Bytes} :
    (∃ range, parseRange header fileSize = .ok (some range)) ↔
      ∃ first last, DASH ∉ first ∧ header = byteRange first last ∧
        NamesPart fileSize first last := by
  constructor
  · rintro ⟨range, h⟩
    obtain ⟨first, last, hdash, rfl⟩ := exists_byteRange h
    exact ⟨first, last, hdash, rfl, namesPart_of_parseRange hdash h⟩
  · rintro ⟨first, last, hdash, rfl, hnames⟩
    exact hnames.parseRange hdash

end

/--
A malformed range is not served, exactly unless the numerals around its first dash
name a part of the file that is opened.
-/
theorem serveStaticFile_malformed_iff (env : Environment) (path : Bytes) (request : HttpRequest)
    (s : OsState) :
    (¬ WellFormedRange (getHeader request.headers (ascii "range")) →
        ∀ response, (serveStaticFile env path request s).1 = .ok response →
          response.statusCode ≠ .PartialContent) ↔
      ¬ ∃ st fd s', Opens env path request s st fd s' ∧
        LenientRange (getHeader request.headers (ascii "range")) st.size := by
  constructor
  · rintro hrefused ⟨st, fd, s', hopens, hmalformed, hnames⟩
    obtain ⟨⟨start, last⟩, hparse⟩ := parseRange_valid_iff.2 hnames
    have hserve : serveStaticFile env path request s = _ :=
      hopens.serveStaticFile_eq.trans (serveOpenFile_range hparse)
    exact hrefused hmalformed _ (congrArg Prod.fst hserve) rfl
  · intro hnone hmalformed response hserve hstatus
    obtain ⟨st, fd, s', start, last, hopens, hparse, -⟩ := serveStaticFile_partial hserve hstatus
    exact hnone ⟨st, fd, s', hopens, hmalformed, parseRange_valid_iff.1 ⟨_, hparse⟩⟩

theorem malformed_range_served :
    ¬ WellFormedRange (ascii "bytes=0-1,3-4") ∧
      ∃ response, (serveStaticFile (.still hello fun _ => .forkFailed) (ascii "/a.txt")
          (rangeRequest (ascii "bytes=0-1,3-4")) {}).1 = .ok response ∧
        response.statusCode = .PartialContent := by
  constructor
  · intro hwell
    have hcomma := hwell.mem (c := COMMA) (by decide)
    revert hcomma
    decide
  · refine ⟨rangeResponse (.still hello fun _ => .forkFailed) (ascii "/a.txt") (hello.stat 1) 3
      0 1, ?_, rfl⟩
    have hparse : parseRange
        (getHeader (rangeRequest (ascii "bytes=0-1,3-4")).headers (ascii "range"))
        (hello.stat 1).size = .ok (some (0, 1)) := by rfl
    rw [(hello_opens _).serveStaticFile_eq]
    exact congrArg Prod.fst (serveOpenFile_range hparse)

end CppHttpd
