import CppHttpd.Http.Core.RequestWire

/-!
# The limit on lines

The limit on the length of a line is tested while no newline is in the buffer.
Whether a line meets it depends on where the reads fall: the parser is followed
read by read to the turn that ends the line.
-/

namespace CppHttpd.RequestParser

open CppHttpd.Foundation

/-! ## Turns on lines -/

/-- `feed` ignores what arrives in this state. -/
abbrev Halted (p : RequestParser) : Prop := p.state = .error

/-- The parser waits for the end of a line. -/
def AtLine (p : RequestParser) : Prop := p.state = .requestLine ∨ p.state = .headers

def lineLimit (p : RequestParser) : Nat :=
  if p.state = .requestLine then MAX_REQUEST_LINE else MAX_HEADER_LINE

/-- The turn on the line that has arrived, with `rest` behind it. -/
def readLine (p : RequestParser) (line rest : Bytes) : RequestParser :=
  if p.state = .requestLine then (parseRequestLine { p with buffer := rest } line).2
  else if line = [] then (endHeaders { p with buffer := rest }).2
  else (storeHeader { p with buffer := rest } line).2

theorem AtLine.not_halted {p : RequestParser} (h : AtLine p) : ¬ Halted p := by
  rcases h with hstate | hstate <;> simp [Halted, hstate]

theorem Ends.consumed {p q : RequestParser} {next : List ParserState} {r : Bool × RequestParser}
    (h : Ends q next r) (hturn : p.turn = r) (hdone : p.state ≠ .done) (hlive : ¬ Halted p) :
    consume p = some ([], r.2) := by
  unfold consume
  rw [hturn, if_neg hdone, if_pos]
  rcases h.state_mem with ⟨hmoves, -⟩ | ⟨-, herror⟩
  · exact .inl hmoves
  · exact .inr ⟨hlive, herror⟩

theorem consume_line {p : RequestParser} (hat : AtLine p) {line rest : Bytes}
    (hcut : cutLine p.buffer = some (line, rest)) :
    consume p = some ([], p.readLine line rest) := by
  have hlive := hat.not_halted
  rcases hat with hstate | hstate
  · have hturn : p.turn = parseRequestLine { p with buffer := rest } line := by
      simp only [turn, hstate, processRequestLine, hcut]
    rw [(parseRequestLine_ends _ _).consumed hturn (by simp [hstate]) hlive]
    simp [readLine, hstate]
  · by_cases hline : line = []
    · have hturn : p.turn = endHeaders { p with buffer := rest } := by
        simp only [turn, hstate, processHeaders, hcut, if_pos hline]
      rw [(endHeaders_ends _).consumed hturn (by simp [hstate]) hlive]
      simp [readLine, hstate, hline]
    · have hturn : p.turn = storeHeader { p with buffer := rest } line := by
        simp only [turn, hstate, processHeaders, hcut, if_neg hline]
      rw [(storeHeader_ends _ _).consumed hturn (by simp [hstate]) hlive]
      simp [readLine, hstate, hline]

theorem consume_long {p : RequestParser} (hat : AtLine p) (hopen : LF ∉ p.buffer)
    (hlong : lineLimit p < p.buffer.length) :
    ∃ p', consume p = some ([], p') ∧ Halted p' := by
  have hcut := cutLine_none hopen
  have hlive := hat.not_halted
  unfold lineLimit at hlong
  rcases hat with hstate | hstate
  · rw [if_pos hstate] at hlong
    have hturn : p.turn = p.fail .badRequest "Request line too long" := by
      simp only [turn, hstate, processRequestLine, hcut, if_pos hlong]
    refine ⟨(p.fail .badRequest "Request line too long").2, ?_, rfl⟩
    simp [consume, hturn, hstate, fail]
  · rw [if_neg (by simp [hstate])] at hlong
    have hturn : p.turn = p.fail .invalidHeader "Header line too long" := by
      simp only [turn, hstate, processHeaders, hcut, if_pos hlong]
    refine ⟨(p.fail .invalidHeader "Header line too long").2, ?_, rfl⟩
    simp [consume, hturn, hstate, fail]

theorem consume_partial {p : RequestParser} (hat : AtLine p) (hopen : LF ∉ p.buffer)
    (hshort : p.buffer.length ≤ lineLimit p) : consume p = none := by
  have hcut := cutLine_none hopen
  unfold lineLimit at hshort
  rcases hat with hstate | hstate
  · rw [if_pos hstate] at hshort
    have hturn : p.turn = (false, p) := by
      simp only [turn, hstate, processRequestLine, hcut, if_neg (not_lt.2 hshort)]
    simp [consume, hturn, hstate]
  · rw [if_neg (by simp [hstate])] at hshort
    have hturn : p.turn = (false, p) := by
      simp only [turn, hstate, processHeaders, hcut, if_neg (not_lt.2 hshort)]
    simp [consume, hturn, hstate]

/-! ## Lines in pieces -/

abbrev Receives := consumer.Receives Halted

abbrev next := consumer.next Halted

/-- Some read ends before the newline with more than the limit of the line in the buffer. -/
def OverLimit (p : RequestParser) (unread : List Bytes) : Prop :=
  ∃ taken later, unread = taken ++ later ∧ LF ∉ p.buffer ++ taken.flatten ∧
    lineLimit p < (p.buffer ++ taken.flatten).length

theorem not_overLimit_of_mem {p : RequestParser} (h : LF ∈ p.buffer) (unread : List Bytes) :
    ¬ OverLimit p unread := by
  rintro ⟨taken, later, -, hopen, -⟩
  exact hopen (List.mem_append_left _ h)

theorem overLimit_of_long {p : RequestParser} (hopen : LF ∉ p.buffer)
    (hlong : lineLimit p < p.buffer.length) (unread : List Bytes) : OverLimit p unread :=
  ⟨[], unread, rfl, by simpa using hopen, by simpa using hlong⟩

theorem overLimit_cons {p : RequestParser} (hshort : p.buffer.length ≤ lineLimit p)
    (data : Bytes) (unread : List Bytes) :
    OverLimit p (data :: unread) ↔ OverLimit (p.append data) unread := by
  constructor
  · rintro ⟨taken, later, heq, hopen, hlong⟩
    cases taken with
    | nil =>
        rw [List.flatten_nil, List.append_nil] at hlong
        omega
    | cons xs taken =>
        obtain ⟨rfl, rfl⟩ := List.cons.inj heq
        refine ⟨taken, later, rfl, ?_, ?_⟩
        · rwa [List.flatten_cons, ← List.append_assoc] at hopen
        · rwa [List.flatten_cons, ← List.append_assoc] at hlong
  · rintro ⟨taken, later, rfl, hopen, hlong⟩
    refine ⟨data :: taken, later, rfl, ?_, ?_⟩
    · rwa [List.flatten_cons, ← List.append_assoc]
    · rwa [List.flatten_cons, ← List.append_assoc]

/-- The next turn on a line is an error of the limit, or reads the line. -/
inductive LineTurn (p : RequestParser) (unread : List Bytes) (line rest : Bytes) : Prop
  | tooLong {p' unread'} : OverLimit p unread →
      next p unread = some ([], p', unread') → Halted p' → LineTurn p unread line rest
  | reads {held unread'} : ¬ OverLimit p unread → held ++ unread'.flatten = rest →
      next p unread = some ([], p.readLine line held, unread') → LineTurn p unread line rest

theorem LineTurn.take {p : RequestParser} {data : Bytes} {unread : List Bytes}
    {line rest : Bytes} (hat : AtLine p) (hopen : LF ∉ p.buffer)
    (hshort : p.buffer.length ≤ lineLimit p)
    (h : LineTurn (p.append data) unread line rest) : LineTurn p (data :: unread) line rest := by
  have hnone := consume_partial hat hopen hshort
  have hnext : next p (data :: unread) = next (p.append data) unread :=
    Consumer.next_take hnone hat.not_halted data unread
  have hover := overLimit_cons hshort data unread
  cases h with
  | tooLong hlong hturn herror =>
      exact .tooLong (hover.2 hlong) (hnext.trans hturn) herror
  | reads hok hrest hturn =>
      exact .reads (fun hlong => hok (hover.1 hlong)) hrest (hnext.trans hturn)

/-- Induction on the reads that are still to come. -/
theorem lineTurn {p : RequestParser} (hat : AtLine p) {raw rest : Bytes} (hraw : LF ∉ raw)
    {unread : List Bytes} (hstream : p.buffer ++ unread.flatten = raw ++ LF :: rest) :
    LineTurn p unread (dropCR raw) rest := by
  induction unread generalizing p with
  | nil =>
      rw [List.flatten_nil, List.append_nil] at hstream
      have hcut : cutLine p.buffer = some (dropCR raw, rest) := by
        rw [hstream]
        exact cutLine_append hraw rest
      have hmem : LF ∈ p.buffer := by simp [hstream]
      exact .reads (not_overLimit_of_mem hmem []) (List.append_nil rest)
        (Consumer.next_of_some (M := consumer) (consume_line hat hcut) [])
  | cons data unread ih =>
      rcases cutLine_cases p.buffer with ⟨hopen, -⟩ | ⟨raw', held, hraw', hbuffer, hcut⟩
      · by_cases hlong : lineLimit p < p.buffer.length
        · obtain ⟨p', hstep, herror⟩ := consume_long hat hopen hlong
          exact .tooLong (overLimit_of_long hopen hlong _)
            (Consumer.next_of_some (M := consumer) hstep _) herror
        · have hstream' : (p.append data).buffer ++ unread.flatten = raw ++ LF :: rest := by
            rw [append_buffer, List.append_assoc, ← List.flatten_cons]
            exact hstream
          exact (ih (p := p.append data) hat hstream').take hat hopen (not_lt.1 hlong)
      · rw [hbuffer, List.append_assoc, List.cons_append] at hstream
        obtain ⟨rfl, hrest⟩ := append_cons_inj hraw' hraw hstream
        have hmem : LF ∈ p.buffer := by simp [hbuffer]
        exact .reads (not_overLimit_of_mem hmem _) hrest
          (Consumer.next_of_some (M := consumer) (consume_line hat hcut) _)

/-! ## What the driver sees of it -/

theorem driveAll_eq_finish (reads : List Bytes) :
    driveAll {} reads = consumer.finish Halted {} reads := by
  rw [driveAll_eq_feedAll (by decide),
    Consumer.finish_of_none (M := consumer) (c := {}) consume_fresh]

theorem driveAll_of_receives {reads unread : List Bytes} {os : List HttpRequest}
    {p : RequestParser} (h : Receives {} reads os p unread) :
    driveAll {} reads =
      (os ++ (consumer.finish Halted p unread).1, (consumer.finish Halted p unread).2) := by
  rw [driveAll_eq_finish]
  exact h.finish_eq

theorem finish_of_error {p : RequestParser} (herror : Halted p) (unread : List Bytes) :
    consumer.finish Halted p unread = ([], p) :=
  Consumer.finish_of_halted (M := consumer) (consume_of_error herror) herror unread

theorem driveAll_of_error {reads unread : List Bytes} {os : List HttpRequest}
    {p : RequestParser} (h : Receives {} reads os p unread) (herror : Halted p) :
    driveAll {} reads = (os, p) := by
  rw [driveAll_of_receives h, finish_of_error herror, List.append_nil]

/-- The parser, at the start of a line, ends in an error before the line is behind it, and what
has been delivered by then is all that is delivered. -/
def RefusesLine (reads : List Bytes) (delivered : List HttpRequest) (p : RequestParser)
    (unread : List Bytes) : Prop :=
  ∃ p' unread', next p unread = some ([], p', unread') ∧ Halted p' ∧
    driveAll {} reads = (delivered, p')

/-- The line is refused whatever its length is. -/
def Unreadable (p : RequestParser) (line : Bytes) : Prop :=
  if p.state = .requestLine then ¬ ∃ w : RequestWords, w.line = line ∧ Readable w
  else (parseHeaderLine line true).1 = []

theorem storeHeader_error_iff {p : RequestParser} (hlive : ¬ Halted p) (line : Bytes) :
    Halted (p.storeHeader line).2 ↔ (parseHeaderLine line true).1 = [] := by
  by_cases hname : (parseHeaderLine line true).1 = []
  · simp [storeHeader, hname, fail]
  · have hstored : (p.storeHeader line).2.state = p.state := by simp [storeHeader, hname]
    rw [Halted, hstored]
    exact iff_of_false hlive hname

theorem readLine_halted_iff {p : RequestParser} (hat : AtLine p) {line : Bytes}
    (hline : line ≠ []) (rest : Bytes) : Halted (p.readLine line rest) ↔ Unreadable p line := by
  unfold readLine Unreadable
  by_cases hstate : p.state = .requestLine
  · rw [if_pos hstate, if_pos hstate]
    exact parseRequestLine_error_iff _ line
  · rw [if_neg hstate, if_neg hline, if_neg hstate]
    exact storeHeader_error_iff (p := { p with buffer := rest }) hat.not_halted line

/-- A line beyond the limit is refused when a read ends inside it after the limit, or when it
would be refused at any length. -/
theorem refusesLine_iff {reads unread : List Bytes} {delivered : List HttpRequest}
    {p : RequestParser} (hreach : Receives {} reads delivered p unread) (hat : AtLine p)
    {raw rest : Bytes} (hraw : LF ∉ raw)
    (hstream : p.buffer ++ unread.flatten = raw ++ LF :: rest) :
    (lineLimit p < (dropCR raw).length → RefusesLine reads delivered p unread) ↔
      (lineLimit p < (dropCR raw).length →
        OverLimit p unread ∨ Unreadable p (dropCR raw)) := by
  apply imp_congr_right
  intro hlong
  have hline : dropCR raw ≠ [] := by
    intro hempty
    simp [hempty] at hlong
  have hrefuses {p' unread'} (hnext : next p unread = some ([], p', unread'))
      (herror : Halted p') : RefusesLine reads delivered p unread := by
    have hreached := hreach.trans (Consumer.receives_of_next hnext)
    rw [List.append_nil] at hreached
    exact ⟨p', unread', hnext, herror, driveAll_of_error hreached herror⟩
  cases lineTurn hat hraw hstream with
  | tooLong hover hnext herror => exact iff_of_true (hrefuses hnext herror) (.inl hover)
  | @reads held unread' hok _ hnext =>
      have hread := readLine_halted_iff hat hline held
      constructor
      · rintro ⟨p', unread'', hnext', herror, -⟩
        rw [hnext] at hnext'
        cases hnext'
        exact .inr (hread.1 herror)
      · intro hcase
        exact hrefuses hnext (hread.2 (hcase.resolve_left hok))

/-! ## A line in two reads -/

/-- A request line with a path of `n + 1` bytes. -/
def longLine (n : Nat) : Bytes := ascii "GET /" ++ List.replicate n 97 ++ ascii " HTTP/1.0"

theorem notMem_of_replicate {c : Byte} (hc : c ≠ 97) {front back : Bytes} (hfront : c ∉ front)
    (hback : c ∉ back) (n : Nat) : c ∉ front ++ List.replicate n 97 ++ back := by
  simp only [List.mem_append, List.mem_replicate, not_or, not_and]
  exact ⟨⟨hfront, fun _ => hc⟩, hback⟩

theorem refusesLine_iff_longLine :
    (lineLimit {} < (dropCR (longLine 8200)).length →
        RefusesLine [longLine 8200 ++ [LF]] [] {} [longLine 8200 ++ [LF]]) ↔
      (lineLimit {} < (dropCR (longLine 8200)).length →
        OverLimit {} [longLine 8200 ++ [LF]] ∨ Unreadable {} (dropCR (longLine 8200))) := by
  have hat : AtLine {} := .inl rfl
  have hraw : LF ∉ longLine 8200 := notMem_of_replicate (by decide) (by decide) (by decide) _
  have hstream : ({} : RequestParser).buffer ++ [longLine 8200 ++ [LF]].flatten =
      longLine 8200 ++ LF :: [] := by simp
  have hreach : Receives {} [longLine 8200 ++ [LF]] [] {} [longLine 8200 ++ [LF]] :=
    Consumer.Receives.refl _ _
  exact refusesLine_iff hreach hat hraw hstream

/-- The head that consists of the line. -/
def longHead (n : Nat) : RequestHead where
  method := .GET
  uri := SLASH :: List.replicate n 97
  version := ascii "HTTP/1.0"
  lineEnd := .crlf
  headers := []
  blankEnd := .crlf
  uri_ne := by simp
  uri_noSP := by
    have h := notMem_of_replicate (by decide) (by decide : SP ∉ [SLASH]) (by decide : SP ∉ []) n
    simpa using h
  uri_noLF := by
    have h := notMem_of_replicate (by decide) (by decide : LF ∉ [SLASH]) (by decide : LF ∉ []) n
    simpa using h
  version_ne := by decide
  version_noSP := by decide
  version_clean := ⟨by decide, by decide⟩

theorem longHead_bytes (n : Nat) : (longHead n).bytes = longLine n ++ ascii "\r\n\r\n" := by
  have hstart : ascii "GET /" = ascii "GET" ++ [SP, SLASH] := by decide
  have hend : ascii " HTTP/1.0" = SP :: ascii "HTTP/1.0" := by decide
  have hblank : ascii "\r\n\r\n" = [CR, LF] ++ [CR, LF] := by decide
  simp only [RequestHead.bytes, RequestHead.requestLine, RequestHead.headerBytes, longHead,
    longLine, hstart, hend, hblank, LineEnd.bytes, Method.toBytes, List.flatMap_nil,
    List.append_assoc, List.cons_append, List.nil_append]

theorem drain_longHead (n : Nat) :
    consumer.drain { buffer := longLine n ++ ascii "\r\n\r\n" } =
      ([(longHead n).deliver 0 []], {}) := by
  have hhead := steps_head (longHead n) []
  have hblank : consumer.Steps
      { buffer := LineEnd.crlf.bytes ++ [], state := .headers, request := (longHead n).request } []
      { state := .done, request := (longHead n).deliver 0 [] } :=
    steps_blank .crlf [] rfl (Nat.zero_le _)
  have hdelivered : consumer.Steps { state := .done, request := (longHead n).deliver 0 [] }
      [(longHead n).deliver 0 []] {} := steps_of_consume (consume_of_done rfl)
  have hsteps := ((hhead.trans hblank).trans hdelivered).drain_eq
  rw [List.append_nil, longHead_bytes] at hsteps
  rw [hsteps, Consumer.drain_of_none (M := consumer) (c := {}) consume_fresh]
  rfl

/-- The rest of a line within the limit arrives with the second read. -/
theorem driveAll_two_reads {first second : Bytes} (hopen : LF ∉ first)
    (hshort : first.length ≤ MAX_REQUEST_LINE) :
    driveAll {} [first, second] = consumer.drain { buffer := first ++ second } := by
  have hat : AtLine { buffer := first } := .inl rfl
  have hwaits : consume { buffer := first } = none := consume_partial hat hopen hshort
  have hboth : Receives {} [first, second] [] { buffer := first ++ second } [] :=
    .take consume_fresh (by decide) (.take hwaits hat.not_halted (.refl _ _))
  rw [driveAll_of_receives hboth, Consumer.finish, Consumer.feedAll]
  simp

/-- The second of two reads brings the end of a line of 8314 bytes. -/
theorem driveAll_delivers_long_line :
    let first := ascii "GET /" ++ List.replicate 8000 97
    let second := List.replicate 300 97 ++ ascii " HTTP/1.0\r\n\r\n"
    first.length ≤ 8192 ∧ second.length ≤ 8192 ∧
      first ++ second = longLine 8300 ++ ascii "\r\n\r\n" ∧
      8192 < (longLine 8300).length ∧ ¬ RefusesLine [first, second] [] {} [first, second] ∧
      (driveAll {} [first, second]).1 = [(longHead 8300).deliver 0 []] := by
  intro first second
  have hfirst : first.length = 8005 := by
    rw [List.length_append, List.length_replicate]
    rfl
  have hsecond : second.length = 313 := by
    rw [List.length_append, List.length_replicate]
    rfl
  have hlen : (longLine 8300).length = 8314 := by
    rw [longLine, List.length_append, List.length_append, List.length_replicate]
    rfl
  have hjoin : first ++ second = longLine 8300 ++ ascii "\r\n\r\n" := by
    have hrep : List.replicate 8300 (97 : Byte) =
        List.replicate 8000 97 ++ List.replicate 300 97 := List.replicate_add 8000 300 97
    have hend : ascii " HTTP/1.0\r\n\r\n" = ascii " HTTP/1.0" ++ ascii "\r\n\r\n" := by decide
    simp only [first, second, longLine, hrep, hend, List.append_assoc]
  have hopen : LF ∉ first := by
    have h := notMem_of_replicate (c := LF) (by decide) (by decide : LF ∉ ascii "GET /")
      (by decide : LF ∉ []) 8000
    rwa [List.append_nil] at h
  have hdrive : driveAll {} [first, second] = ([(longHead 8300).deliver 0 []], {}) := by
    rw [driveAll_two_reads hopen (hfirst.trans_le (by decide)), hjoin, drain_longHead]
  refine ⟨by omega, by omega, hjoin, by omega, ?_, by rw [hdrive]⟩
  rintro ⟨p', -, -, herror, hend⟩
  rw [hdrive] at hend
  cases hend

end CppHttpd.RequestParser
