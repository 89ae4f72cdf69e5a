import CppHttpd.Foundation.Transition
import CppHttpd.Http.Core.ParserStream
import Mathlib.Algebra.GroupWithZero.Nat
import Mathlib.Algebra.Order.BigOperators.Group.List
import Mathlib.Algebra.Order.Group.Nat
import Mathlib.Data.Set.Finite.List

/-!
# What a parser stores

Between two calls the parser keeps an unfinished line or body, the URI and the
header fields of the request it is parsing.  A line is limited, and so is a
body.  The number of header fields is not, except that their names are distinct
and each of them was part of one line.
-/

namespace CppHttpd.RequestParser

open CppHttpd.Foundation

/-! ## Calls -/

/-- The size of the buffer that the callers read into. -/
def FEED_SIZE : Nat := 8192

inductive ParserCall where
  | feed (data : Bytes)
  | getRequest
  | reset

def call (p : RequestParser) : ParserCall → Option RequestParser
  | .feed data => if data.length ≤ FEED_SIZE then some (p.feed data) else none
  | .getRequest => if p.hasRequest then some p.getRequest.2 else none
  | .reset => some p.reset

def parserCalls : Machine RequestParser ParserCall where
  init p := p = {}
  step := call

def headerSize (headers : HeaderMap) : Nat :=
  (headers.entries.map fun header => header.1.length + header.2.length).sum

/-- The bytes of the buffer, the URI and the header fields. -/
def memory (p : RequestParser) : Nat :=
  p.buffer.length + p.request.uri.length + headerSize p.request.headers

/-! ## What a line adds to the request -/

/-- The longest line is made of one that was nearly too long and of one read. -/
def LINE_BOUND : Nat := MAX_HEADER_LINE + FEED_SIZE

structure Stores (r : HttpRequest) : Prop where
  uri : r.uri.length ≤ LINE_BOUND
  header : ∀ {name value}, r.headers.lookup name = some value →
    name.length ≤ LINE_BOUND ∧ value.length ≤ LINE_BOUND

theorem stores_empty : Stores {} where
  uri := Nat.zero_le _
  header h := by cases h

theorem length_trim_le (s ws : Bytes) : (trim s ws).length ≤ s.length := by
  rw [trim_eq]
  calc ((s.dropWhile ws.contains).rdropWhile ws.contains).length
      ≤ (s.dropWhile ws.contains).length := (List.rdropWhile_prefix _ _).length_le
    _ ≤ s.length := (List.dropWhile_sublist _).length_le

theorem length_parseHeaderLine_le (line : Bytes) (lowercaseName : Bool) :
    (parseHeaderLine line lowercaseName).1.length ≤ line.length ∧
      (parseHeaderLine line lowercaseName).2.length ≤ line.length := by
  unfold parseHeaderLine
  split
  · simp
  · rename_i colon _
    have hname := length_trim_le (line.take colon) (ascii " \t\r\n")
    have hvalue := length_trim_le (line.drop (colon + 1)) (ascii " \t\r\n")
    simp only [List.length_take, List.length_drop] at hname hvalue
    simp only [substr_eq, substrFrom_eq, List.drop_zero]
    split_ifs <;> simp [toLower] <;> omega

theorem parseRequestLine_stores {p : RequestParser} (h : Stores p.request) {line : Bytes}
    (hline : line.length ≤ LINE_BOUND) : Stores (parseRequestLine p line).2.request := by
  generalize hresult : parseRequestLine p line = r
  unfold parseRequestLine at hresult
  split at hresult
  · subst hresult
    exact h
  · rename_i s1 _
    split at hresult
    · subst hresult
      exact h
    · rename_i s2 _
      have huri : ((line.drop (s1 + 1)).take (s2 - (s1 + 1))).length ≤ LINE_BOUND := by
        simp only [List.length_take, List.length_drop]
        omega
      simp only [acceptMethod, fail] at hresult
      split_ifs at hresult
      all_goals
        subst hresult
        first | exact h | exact ⟨huri, h.header⟩

theorem storeHeader_stores {p : RequestParser} (h : Stores p.request) {line : Bytes}
    (hline : line.length ≤ LINE_BOUND) : Stores (storeHeader p line).2.request := by
  obtain ⟨hname, hvalue⟩ := length_parseHeaderLine_le line true
  unfold storeHeader
  dsimp only
  split_ifs
  · exact h
  · refine ⟨h.uri, fun {key value} hlookup => ?_⟩
    by_cases hkey : key = (parseHeaderLine line true).1
    · subst hkey
      rw [AList.lookup_insert] at hlookup
      cases hlookup
      exact ⟨hname.trans hline, hvalue.trans hline⟩
    · rw [AList.lookup_insert_ne hkey] at hlookup
      exact h.header hlookup

/-- The end of the header section stores no line, and limits the body. -/
theorem endHeaders_stores {p : RequestParser} (h : Stores p.request) :
    Stores (endHeaders p).2.request ∧
      ((endHeaders p).2.state = .body → (endHeaders p).2.bodyBytesRemaining ≤ MAX_BODY_SIZE) := by
  have haccept : ∀ cl, Stores (acceptLength p cl).2.request ∧
      ((acceptLength p cl).2.state = .body →
        (acceptLength p cl).2.bodyBytesRemaining ≤ MAX_BODY_SIZE) := by
    intro cl
    unfold acceptLength
    by_cases hlarge : cl > MAX_BODY_SIZE
    · rw [if_pos hlarge]
      exact ⟨h, fun hbody => by cases hbody⟩
    · rw [if_neg hlarge]
      exact ⟨⟨h.uri, h.header⟩, fun _ => Nat.le_of_not_lt hlarge⟩
  unfold endHeaders
  split
  · exact haccept 0
  · split
    · exact ⟨h, fun hbody => by cases hbody⟩
    · split_ifs
      · exact ⟨h, fun hbody => by cases hbody⟩
      · exact haccept _

/-! ## Between two turns -/

structure InTurn (p : RequestParser) : Prop where
  stores : Stores p.request
  /-- A read may have come behind the end of the body. -/
  body : p.state = .body → p.buffer.length ≤ p.bodyBytesRemaining + LINE_BOUND ∧
    p.bodyBytesRemaining ≤ MAX_BODY_SIZE
  other : p.state ≠ .body → p.buffer.length ≤ LINE_BOUND

theorem length_of_cutLine {buffer line rest : Bytes} (h : cutLine buffer = some (line, rest)) :
    line.length ≤ buffer.length ∧ rest.length ≤ buffer.length := by
  rcases cutLine_cases buffer with ⟨-, hnone⟩ | ⟨raw, tail, -, rfl, hsome⟩
  · rw [hnone] at h
    cases h
  · rw [hsome] at h
    cases h
    have hdrop : (dropCR raw).length ≤ raw.length := by
      unfold dropCR
      split_ifs <;> simp
    simp only [List.length_append, List.length_cons]
    omega

/-- A line leads to a state in which the rest of the buffer is looked at. -/
theorem InTurn.of_ends {q : RequestParser} {next : List ParserState}
    {r : Bool × RequestParser} (hends : Ends q next r) (hstores : Stores r.2.request)
    (hbody : r.2.state = .body → r.2.bodyBytesRemaining ≤ MAX_BODY_SIZE)
    (hbuffer : q.buffer.length ≤ LINE_BOUND) : InTurn r.2 where
  stores := hstores
  body hstate := ⟨by rw [hends.buffer_eq]; omega, hbody hstate⟩
  other _ := by rw [hends.buffer_eq]; exact hbuffer

theorem Ends.ne_body {q : RequestParser} {next : List ParserState} {r : Bool × RequestParser}
    (hends : Ends q next r) (hnext : .body ∉ next) : r.2.state ≠ .body := by
  intro hbody
  rcases hends.state_mem with ⟨-, hmem⟩ | ⟨-, herr⟩
  · exact hnext (hbody ▸ hmem)
  · cases hbody.symm.trans herr

theorem InTurn.fail {p : RequestParser} (h : InTurn p) (hstate : p.state ≠ .body)
    (kind : ParseError) (message : String) : InTurn (p.fail kind message).2 where
  stores := h.stores
  body hbody := by cases hbody
  other _ := h.other hstate

theorem InTurn.turn {p : RequestParser} (h : InTurn p) : InTurn p.turn.2 := by
  unfold RequestParser.turn
  cases hstate : p.state with
  | requestLine =>
      have hne : p.state ≠ .body := by simp [hstate]
      simp only [processRequestLine]
      cases hcut : cutLine p.buffer with
      | none =>
          dsimp only
          split_ifs
          · exact h.fail hne _ _
          · exact h
      | some cut =>
          obtain ⟨hline, hrest⟩ := length_of_cutLine hcut
          have hends := parseRequestLine_ends { p with buffer := cut.2 } cut.1
          have hstores := parseRequestLine_stores (p := { p with buffer := cut.2 }) h.stores
            (hline.trans (h.other hne))
          exact .of_ends hends hstores (fun hbody => absurd hbody (hends.ne_body (by simp)))
            (hrest.trans (h.other hne))
  | headers =>
      have hne : p.state ≠ .body := by simp [hstate]
      simp only [processHeaders]
      cases hcut : cutLine p.buffer with
      | none =>
          dsimp only
          split_ifs
          · exact h.fail hne _ _
          · exact h
      | some cut =>
          obtain ⟨hline, hrest⟩ := length_of_cutLine hcut
          dsimp only
          split_ifs
          · obtain ⟨hstores, hbody⟩ := endHeaders_stores (p := { p with buffer := cut.2 }) h.stores
            exact .of_ends (endHeaders_ends _) hstores hbody (hrest.trans (h.other hne))
          · have hends := storeHeader_ends { p with buffer := cut.2 } cut.1
            have hstores := storeHeader_stores (p := { p with buffer := cut.2 }) h.stores
              (hline.trans (h.other hne))
            exact .of_ends hends hstores
              (fun hbody => absurd hbody (hends.ne_body (by simp [hstate])))
              (hrest.trans (h.other hne))
  | body =>
      obtain ⟨hbuffer, hmax⟩ := h.body hstate
      simp only [processBody]
      split_ifs with hzero
      · exact ⟨h.stores, fun hbody => (by cases hbody), fun _ => by simpa [hzero] using hbuffer⟩
      · exact h
      · refine ⟨⟨h.stores.uri, h.stores.header⟩, fun hbody => (by cases hbody), fun _ => ?_⟩
        simp only [List.length_drop]
        omega
  | done => exact h
  | error => exact h

theorem InTurn.advanceLoop {p : RequestParser} (h : InTurn p) (fuel : Nat) :
    InTurn (advanceLoop fuel p) := by
  induction fuel generalizing p with
  | zero => exact h
  | succ fuel ih =>
      have hturn := h.turn
      rw [RequestParser.advanceLoop]
      split_ifs
      · exact h
      · revert hturn
        rcases p.turn with ⟨_ | _, p'⟩
        · exact id
        · exact ih

theorem InTurn.advance {p : RequestParser} (h : InTurn p) : InTurn p.advance :=
  h.advanceLoop _

/-! ## Between two calls -/

structure AtRest (p : RequestParser) : Prop where
  stores : Stores p.request
  requestLine : p.state = .requestLine → p.buffer.length ≤ MAX_REQUEST_LINE
  headers : p.state = .headers → p.buffer.length ≤ MAX_HEADER_LINE
  body : p.state = .body → p.buffer.length < p.bodyBytesRemaining ∧
    p.bodyBytesRemaining ≤ MAX_BODY_SIZE
  stopped : p.state = .done ∨ p.state = .error → p.buffer.length ≤ LINE_BOUND

theorem consume_none_iff {p : RequestParser} (hdone : p.state ≠ .done) (herr : p.state ≠ .error) :
    consume p = none ↔ p.turn.1 = false ∧ p.turn.2.state ≠ .error := by
  simp [consume, hdone, herr]

/-- A line that has ended is taken, whatever it says. -/
theorem Ends.not_waiting {q : RequestParser} {next : List ParserState}
    {r : Bool × RequestParser} (hends : Ends q next r) (hturn : r.1 = false) :
    r.2.state = .error := by
  rcases hends.state_mem with ⟨htrue, -⟩ | ⟨-, herr⟩
  · rw [hturn] at htrue
    cases htrue
  · exact herr

theorem InTurn.atRest {p : RequestParser} (h : InTurn p) (hquiet : Quiet p) : AtRest p := by
  have hwaits : p.state ≠ .done → p.state ≠ .error →
      p.turn.1 = false ∧ p.turn.2.state ≠ .error := fun hdone herr =>
    (consume_none_iff hdone herr).1 (hquiet.resolve_left hdone)
  refine ⟨h.stores, fun hstate => ?_, fun hstate => ?_, fun hstate => ?_, fun hstop => ?_⟩
  · obtain ⟨hturn, herr⟩ := hwaits (by simp [hstate]) (by simp [hstate])
    have heq : p.turn = p.processRequestLine := by simp [RequestParser.turn, hstate]
    rw [heq] at hturn herr
    by_contra hlong
    cases hcut : cutLine p.buffer with
    | none =>
        apply herr
        simp only [processRequestLine, hcut]
        rw [if_pos (Nat.lt_of_not_le hlong)]
        rfl
    | some cut =>
        simp only [processRequestLine, hcut] at hturn herr
        exact herr ((parseRequestLine_ends _ _).not_waiting hturn)
  · obtain ⟨hturn, herr⟩ := hwaits (by simp [hstate]) (by simp [hstate])
    have heq : p.turn = p.processHeaders := by simp [RequestParser.turn, hstate]
    rw [heq] at hturn herr
    by_contra hlong
    cases hcut : cutLine p.buffer with
    | none =>
        apply herr
        simp only [processHeaders, hcut]
        rw [if_pos (Nat.lt_of_not_le hlong)]
        rfl
    | some cut =>
        simp only [processHeaders, hcut] at hturn herr
        split_ifs at hturn herr
        · exact herr ((endHeaders_ends _).not_waiting hturn)
        · exact herr ((storeHeader_ends _ _).not_waiting hturn)
  · obtain ⟨hturn, herr⟩ := hwaits (by simp [hstate]) (by simp [hstate])
    have heq : p.turn = p.processBody := by simp [RequestParser.turn, hstate]
    rw [heq] at hturn
    refine ⟨?_, (h.body hstate).2⟩
    unfold processBody at hturn
    split_ifs at hturn with hzero hshort
    exact hshort
  · apply h.other
    rcases hstop with hstate | hstate <;> simp [hstate]

theorem AtRest.advance {p : RequestParser} (h : InTurn p) : AtRest p.advance :=
  h.advance.atRest (advance_quiet p)

theorem atRest_fresh : AtRest {} where
  stores := stores_empty
  requestLine _ := Nat.zero_le _
  headers h := by cases h
  body h := by cases h
  stopped _ := Nat.zero_le _

theorem AtRest.feed {p : RequestParser} (h : AtRest p) {data : Bytes}
    (hdata : data.length ≤ FEED_SIZE) : AtRest (p.feed data) := by
  unfold RequestParser.feed
  split_ifs with hstop
  · exact h
  · rw [not_or] at hstop
    have hline : MAX_REQUEST_LINE ≤ MAX_HEADER_LINE := by decide
    refine .advance ⟨h.stores, fun hbody => ?_, fun hbody => ?_⟩
    · obtain ⟨hbuffer, hmax⟩ := h.body hbody
      refine ⟨?_, hmax⟩
      simp only [List.length_append, LINE_BOUND]
      omega
    · have hbuffer : p.buffer.length ≤ MAX_HEADER_LINE := by
        cases hstate : p.state with
        | requestLine => exact (h.requestLine hstate).trans hline
        | headers => exact h.headers hstate
        | body => exact absurd hstate hbody
        | done => exact absurd hstate hstop.1
        | error => exact absurd hstate hstop.2
      simp only [List.length_append, LINE_BOUND]
      omega

theorem AtRest.getRequest {p : RequestParser} (h : AtRest p) (hdone : p.state = .done) :
    AtRest p.getRequest.2 :=
  .advance (p := p.restart)
    ⟨stores_empty, fun hbody => (by cases hbody), fun _ => h.stopped (.inl hdone)⟩

theorem AtRest.call {p p' : RequestParser} (h : AtRest p) {c : ParserCall}
    (hcall : p.call c = some p') : AtRest p' := by
  cases c with
  | feed data =>
      simp only [RequestParser.call] at hcall
      split_ifs at hcall with hdata
      cases hcall
      exact h.feed hdata
  | getRequest =>
      simp only [RequestParser.call] at hcall
      split_ifs at hcall with hdone
      cases hcall
      exact h.getRequest (by simpa [hasRequest] using hdone)
  | reset =>
      cases hcall
      exact atRest_fresh

theorem atRest_of_reached {p : RequestParser} (h : parserCalls.Reached p) : AtRest p :=
  h.invariant (fun _ hinit => hinit ▸ atRest_fresh) fun _ _ _ hrest _ hstep => hrest.call hstep

/-! ## The bound -/

theorem AtRest.buffer_le {p : RequestParser} (h : AtRest p) :
    p.buffer.length ≤ MAX_BODY_SIZE + LINE_BOUND := by
  have hline : MAX_REQUEST_LINE ≤ LINE_BOUND := by decide
  have hheader : MAX_HEADER_LINE ≤ LINE_BOUND := by decide
  cases hstate : p.state with
  | requestLine => exact ((h.requestLine hstate).trans hline).trans (Nat.le_add_left _ _)
  | headers => exact ((h.headers hstate).trans hheader).trans (Nat.le_add_left _ _)
  | body =>
      obtain ⟨hbuffer, hmax⟩ := h.body hstate
      omega
  | done => exact (h.stopped (.inl hstate)).trans (Nat.le_add_left _ _)
  | error => exact (h.stopped (.inr hstate)).trans (Nat.le_add_left _ _)

theorem Stores.headerSize_le {r : HttpRequest} (h : Stores r) :
    headerSize r.headers ≤ r.headers.entries.length * (2 * LINE_BOUND) := by
  unfold headerSize
  refine (List.sum_le_card_nsmul _ (2 * LINE_BOUND) fun size hsize => ?_).trans (by simp)
  obtain ⟨⟨name, value⟩, hmem, rfl⟩ := List.mem_map.1 hsize
  obtain ⟨hname, hvalue⟩ := h.header (AList.mem_lookup_iff.2 hmem)
  dsimp only
  omega

theorem finite_names : {name : Bytes | name.length ≤ LINE_BOUND}.Finite :=
  have : Finite Byte := .of_injective UInt8.toFin fun _ _ => UInt8.toFin_inj.1
  List.finite_length_le Byte LINE_BOUND

/-- Names are distinct, and each of them was part of one line. -/
theorem Stores.fields_le {r : HttpRequest} (h : Stores r) :
    r.headers.entries.length ≤ finite_names.toFinset.card := by
  have hkeys : r.headers.keys.toFinset ⊆ finite_names.toFinset := by
    intro name hmem
    rw [List.mem_toFinset] at hmem
    obtain ⟨value, hlookup⟩ := Option.isSome_iff_exists.1
      (AList.lookup_isSome.2 (AList.mem_keys.2 hmem))
    simpa using (h.header hlookup).1
  calc r.headers.entries.length
      = r.headers.keys.length := by simp [AList.keys, List.keys]
    _ = r.headers.keys.toFinset.card := (List.toFinset_card_of_nodup r.headers.nodupKeys).symm
    _ ≤ finite_names.toFinset.card := Finset.card_le_card hkeys

/-- The number of the header fields is not limited, but there are only finitely many
names that fit a line. -/
theorem memory_bounded : ∃ bound, ∀ p, parserCalls.Reached p → p.memory ≤ bound := by
  refine ⟨MAX_BODY_SIZE + LINE_BOUND + LINE_BOUND +
    finite_names.toFinset.card * (2 * LINE_BOUND), fun p hreached => ?_⟩
  have hrest := atRest_of_reached hreached
  have hheaders := hrest.stores.headerSize_le.trans
    (Nat.mul_le_mul_right (2 * LINE_BOUND) hrest.stores.fields_le)
  have huri := hrest.stores.uri
  have hbuffer := hrest.buffer_le
  unfold memory
  omega

end CppHttpd.RequestParser
