import CppHttpd.Http.Core.HttpResponse
import CppHttpd.Http.Core.Quiescence
import CppHttpd.Http.Core.RequestWire

/-!
# Requests as bytes

`HttpRequest::to_bytes` writes the body right behind the header lines, with no
blank line between them.  A parser goes on to read the body as header lines.
-/

namespace CppHttpd

open CppHttpd.Foundation

namespace HttpRequest

def requestLineBytes (r : HttpRequest) : Bytes :=
  r.methodStr ++ ascii " " ++ r.uri ++ ascii " " ++ ascii "HTTP/1.1"

def headerLine (header : Sigma fun _ : Bytes => Bytes) : Bytes :=
  header.1 ++ ascii ": " ++ header.2

def toBytes (it : HttpResponse.Iteration) (r : HttpRequest) : Bytes :=
  r.requestLineBytes ++ ascii "\r\n" ++
    (it.order r.headers).flatMap (fun header => headerLine header ++ ascii "\r\n") ++ r.buffer

end HttpRequest

namespace RequestParser

/-! ## Requests that are delivered -/

def Delivered (r : HttpRequest) : Prop :=
  ∃ p : RequestParser, anyCalls.Reached p ∧ p.hasRequest = true ∧ p.getRequest.1 = r

/-- A new parser that is fed the bytes has the request again, and nothing else. -/
def ReadsBack (it : HttpResponse.Iteration) (r : HttpRequest) : Prop :=
  let p := feed {} (r.toBytes it)
  p.hasRequest = true ∧ p.getRequest.1.method = r.method ∧ p.getRequest.1.uri = r.uri ∧
    (∀ name, p.getRequest.1.headers.lookup name = r.headers.lookup name) ∧
    p.getRequest.1.buffer = r.buffer ∧ p.getRequest.2.buffer = []

/-- What has been read from lines has no line feed in it, and a word no space. -/
structure OneLine (r : HttpRequest) : Prop where
  method : r.methodStr = r.method.toBytes
  uri : SP ∉ r.uri ∧ LF ∉ r.uri
  header : ∀ {name value}, r.headers.lookup name = some value → LF ∉ name ∧ LF ∉ value

theorem oneLine_empty : OneLine {} where
  method := rfl
  uri := by decide
  header h := by cases h

theorem not_mem_between {s : Bytes} {c : Byte} {start i : Nat} (h : find s c start = some i) :
    c ∉ (s.drop start).take (i - start) := by
  obtain ⟨j, hj, rfl⟩ := Option.map_eq_some_iff.1 h
  have hfind : find (s.drop start) c 0 = some j := by rw [find_zero, hj]
  rw [Nat.add_sub_cancel_left]
  exact (find_split hfind).2

theorem lf_not_mem_trim {s : Bytes} (h : LF ∉ s) (ws : Bytes) : LF ∉ trim s ws :=
  fun hmem => h (trim_subset s ws hmem)

theorem lf_not_mem_toLower {s : Bytes} (h : LF ∉ s) : LF ∉ toLower s := by
  intro hmem
  obtain ⟨c, hc, hlower⟩ := List.mem_map.1 hmem
  unfold toLowerByte at hlower
  split_ifs at hlower with hupper
  · obtain ⟨hlo, hhi⟩ := hupper
    have hlf := congrArg UInt8.toNat hlower
    have hten : LF.toNat = 10 := rfl
    rw [UInt8.le_iff_toNat_le] at hlo hhi
    rw [UInt8.toNat_add] at hlf
    simp only [UInt8.reduceToNat] at hlo hhi hlf
    omega
  · rw [hlower] at hc
    exact h hc

theorem lf_not_mem_parseHeaderLine {line : Bytes} (h : LF ∉ line) (lowercaseName : Bool) :
    LF ∉ (parseHeaderLine line lowercaseName).1 ∧
      LF ∉ (parseHeaderLine line lowercaseName).2 := by
  unfold parseHeaderLine
  split
  · simp
  · rename_i colon _
    have hname : LF ∉ trim (line.take colon) :=
      lf_not_mem_trim (fun hmem => h (List.mem_of_mem_take hmem)) _
    have hvalue : LF ∉ trim (line.drop (colon + 1)) :=
      lf_not_mem_trim (fun hmem => h (List.mem_of_mem_drop hmem)) _
    simp only [substr_eq, substrFrom_eq, List.drop_zero]
    split_ifs
    · simp
    · simp
    · exact ⟨lf_not_mem_toLower hname, hvalue⟩
    · exact ⟨hname, hvalue⟩

theorem lf_not_mem_of_cut {buffer line rest : Bytes} (h : cutLine buffer = some (line, rest)) :
    LF ∉ line := by
  rcases cutLine_cases buffer with ⟨-, hnone⟩ | ⟨raw, tail, hraw, -, hsome⟩
  · rw [hnone] at h
    cases h
  · rw [hsome] at h
    obtain ⟨rfl, rfl⟩ := Prod.mk.inj (Option.some.inj h)
    unfold dropCR
    split_ifs
    · exact fun hmem => hraw (List.dropLast_subset _ hmem)
    · exact hraw

theorem oneLine_parseRequestLine {p : RequestParser} (h : OneLine p.request) {line : Bytes}
    (hline : LF ∉ line) : OneLine (parseRequestLine p line).2.request := by
  unfold parseRequestLine
  split
  · exact h
  · split
    · exact h
    · rename_i s1 _ s2 h2
      have huri : SP ∉ (line.drop (s1 + 1)).take (s2 - (s1 + 1)) ∧
          LF ∉ (line.drop (s1 + 1)).take (s2 - (s1 + 1)) :=
        ⟨not_mem_between h2,
          fun hmem => hline (List.mem_of_mem_drop (List.mem_of_mem_take hmem))⟩
      have haccept : ∀ method : Method, OneLine (acceptMethod { p with
          request := { p.request with
            uri := (line.drop (s1 + 1)).take (s2 - (s1 + 1)) } } method).2.request := by
        intro method
        exact ⟨rfl, huri, h.header⟩
      dsimp only
      split_ifs
      · exact h
      · exact ⟨h.method, huri, h.header⟩
      · exact haccept _
      · exact haccept _
      · exact haccept _
      · exact haccept _
      · exact ⟨h.method, huri, h.header⟩

theorem oneLine_storeHeader {p : RequestParser} (h : OneLine p.request) {line : Bytes}
    (hline : LF ∉ line) : OneLine (storeHeader p line).2.request := by
  obtain ⟨hname, hvalue⟩ := lf_not_mem_parseHeaderLine hline true
  unfold storeHeader
  dsimp only
  split_ifs
  · exact h
  · refine ⟨h.method, h.uri, fun {key value} hlookup => ?_⟩
    by_cases hkey : key = (parseHeaderLine line true).1
    · subst hkey
      rw [AList.lookup_insert] at hlookup
      obtain rfl := Option.some.inj hlookup
      exact ⟨hname, hvalue⟩
    · rw [AList.lookup_insert_ne hkey] at hlookup
      exact h.header hlookup

theorem oneLine_endHeaders {p : RequestParser} (h : OneLine p.request) :
    OneLine (endHeaders p).2.request := by
  have haccept : ∀ cl, OneLine (acceptLength p cl).2.request := by
    intro cl
    unfold acceptLength
    by_cases hlarge : cl > MAX_BODY_SIZE
    · rw [if_pos hlarge]
      exact h
    · rw [if_neg hlarge]
      exact ⟨h.method, h.uri, h.header⟩
  unfold endHeaders
  split
  · exact haccept 0
  · split
    · exact h
    · split_ifs
      · exact h
      · exact haccept _

theorem oneLine_turn {p : RequestParser} (h : OneLine p.request) : OneLine p.turn.2.request := by
  unfold turn
  cases hstate : p.state with
  | requestLine =>
      simp only [processRequestLine]
      cases hcut : cutLine p.buffer with
      | none =>
          dsimp only
          split_ifs
          · exact h
          · exact h
      | some cut =>
          exact oneLine_parseRequestLine (p := { p with buffer := cut.2 }) h
            (lf_not_mem_of_cut hcut)
  | headers =>
      simp only [processHeaders]
      cases hcut : cutLine p.buffer with
      | none =>
          dsimp only
          split_ifs
          · exact h
          · exact h
      | some cut =>
          dsimp only
          split_ifs
          · exact oneLine_endHeaders (p := { p with buffer := cut.2 }) h
          · exact oneLine_storeHeader (p := { p with buffer := cut.2 }) h (lf_not_mem_of_cut hcut)
  | body =>
      simp only [processBody]
      split_ifs
      · exact h
      · exact h
      · exact ⟨h.method, h.uri, h.header⟩
  | done => exact h
  | error => exact h

theorem oneLine_advances {p p' : RequestParser} (hadv : Advances p p') (h : OneLine p.request) :
    OneLine p'.request := by
  induction hadv with
  | stopped => exact h
  | waits hgo hturn =>
      have hkept := oneLine_turn h
      rwa [hturn] at hkept
  | again hgo hturn hrest ih =>
      have hkept := oneLine_turn h
      rw [hturn] at hkept
      exact ih hkept

theorem oneLine_of_reached {p : RequestParser} (h : anyCalls.Reached p) : OneLine p.request := by
  change (fun p : RequestParser => OneLine p.request) p
  apply h.invariant
  · intro q hinit
    obtain rfl : q = {} := hinit
    exact oneLine_empty
  · intro q c q' hinv _ hstep
    cases c with
    | feed data =>
        obtain rfl := Option.some.inj hstep
        unfold feed
        split_ifs
        · exact hinv
        · exact oneLine_advances (advances_advance { q with buffer := q.buffer ++ data }) hinv
    | getRequest =>
        simp only [anyCalls, anyCall] at hstep
        split_ifs at hstep
        obtain rfl := Option.some.inj hstep
        exact oneLine_advances (advances_advance q.restart) oneLine_empty
    | reset =>
        obtain rfl := Option.some.inj hstep
        exact oneLine_empty

/-! ## Lines behind each other -/

/-- A line of the writer is the next line of the buffer. -/
theorem cutLine_crlf {line : Bytes} (hline : LF ∉ line) (rest : Bytes) :
    cutLine (line ++ ascii "\r\n" ++ rest) = some (line, rest) := by
  have hraw : LF ∉ line ++ [CR] := by simpa using ⟨hline, (by decide : LF ≠ CR)⟩
  have hcut := cutLine_append hraw rest
  have hdrop : dropCR (line ++ [CR]) = line := by simp [dropCR]
  have hcrlf : ascii "\r\n" = [CR, LF] := by decide
  rw [hdrop] at hcut
  rw [hcrlf, ← hcut]
  simp

/-! ## The bytes that are left for a body -/

theorem body_parseRequestLine (p : RequestParser) (line : Bytes) :
    (parseRequestLine p line).2.request.buffer = p.request.buffer := by
  unfold parseRequestLine
  split
  · rfl
  · split
    · rfl
    · dsimp only
      split_ifs
      all_goals rfl

theorem body_acceptLength (p : RequestParser) (cl : Nat) :
    (acceptLength p cl).2.request.buffer = p.request.buffer := by
  unfold acceptLength
  by_cases hlarge : cl > MAX_BODY_SIZE
  · rw [if_pos hlarge]
    rfl
  · rw [if_neg hlarge]

theorem body_endHeaders (p : RequestParser) :
    (endHeaders p).2.request.buffer = p.request.buffer := by
  unfold endHeaders
  split
  · exact body_acceptLength p 0
  · split
    · rfl
    · split_ifs
      · rfl
      · exact body_acceptLength p _

theorem body_storeHeader (p : RequestParser) (line : Bytes) :
    (storeHeader p line).2.request.buffer = p.request.buffer := by
  unfold storeHeader
  dsimp only
  split_ifs
  all_goals rfl

theorem body_turn {p : RequestParser} (hbody : p.state ≠ .body) :
    p.turn.2.request.buffer = p.request.buffer := by
  unfold turn
  cases hstate : p.state with
  | requestLine =>
      simp only [processRequestLine]
      cases cutLine p.buffer with
      | none =>
          dsimp only
          split_ifs
          all_goals rfl
      | some cut => exact body_parseRequestLine { p with buffer := cut.2 } cut.1
  | headers =>
      simp only [processHeaders]
      cases cutLine p.buffer with
      | none =>
          dsimp only
          split_ifs
          all_goals rfl
      | some cut =>
          dsimp only
          split_ifs
          · exact body_endHeaders { p with buffer := cut.2 }
          · exact body_storeHeader { p with buffer := cut.2 } cut.1
  | body => exact absurd hstate hbody
  | done => rfl
  | error => rfl

/-- The bytes that are in the buffer or in the body. -/
def stored (p : RequestParser) : Nat := p.request.buffer.length + p.buffer.length

theorem turn_buffer_le (p : RequestParser) : p.turn.2.buffer.length ≤ p.buffer.length := by
  have hout := turn_outcome p
  generalize p.turn = r at hout
  cases hout with
  | waits => exact Nat.le_refl _
  | fails _ _ hle => exact hle
  | consumes _ _ hlt => exact hlt.le
  | finishes _ _ hle => exact hle

theorem stored_turn (p : RequestParser) : stored p.turn.2 ≤ stored p := by
  by_cases hbody : p.state = .body
  · simp only [turn, hbody, processBody]
    split_ifs
    · exact Nat.le_refl _
    · exact Nat.le_refl _
    · simp only [stored, substr_eq, List.drop_zero, List.length_take, List.length_drop]
      omega
  · have hkept := body_turn hbody
    have hle := turn_buffer_le p
    simp only [stored, hkept]
    omega

theorem stored_advances {p p' : RequestParser} (hadv : Advances p p') :
    stored p' ≤ stored p := by
  induction hadv with
  | stopped => exact Nat.le_refl _
  | @waits p p' hgo hturn =>
      have hle := stored_turn p
      rwa [hturn] at hle
  | @again p q p' hgo hturn hrest ih =>
      have hle := stored_turn p
      rw [hturn] at hle
      exact ih.trans hle

/-- A parser that is at its header lines needs one more, the blank one. -/
theorem stored_lt_of_headers {p p' : RequestParser} (hadv : Advances p p')
    (hstate : p.state = .headers) (hdone : p'.state = .done) : stored p' < stored p := by
  cases hadv with
  | stopped hstop => simp [hstate] at hstop
  | waits hgo hturn =>
      rcases turn_waits hturn with herror | rfl
      · cases hdone.symm.trans herror
      · cases hstate.symm.trans hdone
  | @again _ q _ hgo hturn hrest =>
      have hkept : q.request.buffer = p.request.buffer := by
        have hbody := body_turn (p := p) (by simp [hstate])
        rwa [hturn] at hbody
      have hlt : q.buffer.length < p.buffer.length := by
        have hout := turn_outcome p
        rw [hturn] at hout
        cases hout with
        | consumes _ _ hlt => exact hlt
        | finishes hbody => cases hstate.symm.trans hbody
      have hle := stored_advances hrest
      simp only [stored, hkept] at hle ⊢
      omega

/-! ## Reading what `to_bytes` wrote -/

/-- A line that is not blank leaves the parser at its header lines, or it fails. -/
theorem headers_of_line {p p' : RequestParser} {line rest : Bytes} (hline : LF ∉ line)
    (hne : line ≠ []) (hstate : p.state = .headers)
    (hbuffer : p.buffer = line ++ ascii "\r\n" ++ rest) (hadv : Advances p p')
    (hdone : p'.state = .done) :
    ∃ q : RequestParser, q.state = .headers ∧ q.buffer = rest ∧
      q.request.buffer = p.request.buffer ∧ Advances q p' := by
  have hturn : p.turn = storeHeader { p with buffer := rest } line := by
    simp only [turn, hstate, processHeaders, hbuffer, cutLine_crlf hline, hne, if_false]
  have hends := storeHeader_ends { p with buffer := rest } line
  have hbody := body_storeHeader { p with buffer := rest } line
  rw [← hturn] at hends hbody
  cases hadv with
  | stopped hstop => simp [hstate] at hstop
  | waits hgo hwait =>
      rw [hwait] at hends
      cases hdone.symm.trans (hends.not_waiting rfl)
  | @again _ q _ hgo hagain hrest =>
      rw [hagain] at hends hbody
      refine ⟨q, ?_, hends.buffer_eq, hbody, hrest⟩
      rcases hends.state_mem with ⟨-, hmem⟩ | ⟨hfalse, -⟩
      · simpa [hstate] using hmem
      · cases hfalse

theorem headers_of_lines (lines : List Bytes) {p p' : RequestParser} {rest : Bytes}
    (hlines : ∀ line ∈ lines, LF ∉ line ∧ line ≠ []) (hstate : p.state = .headers)
    (hbuffer : p.buffer = lines.flatMap (· ++ ascii "\r\n") ++ rest) (hadv : Advances p p')
    (hdone : p'.state = .done) :
    ∃ q : RequestParser, q.state = .headers ∧ q.buffer = rest ∧
      q.request.buffer = p.request.buffer ∧ Advances q p' := by
  induction lines generalizing p with
  | nil => exact ⟨p, hstate, hbuffer, rfl, hadv⟩
  | cons line lines ih =>
      obtain ⟨⟨hline, hne⟩, hmore⟩ := List.forall_mem_cons.1 hlines
      have hsplit : p.buffer =
          line ++ ascii "\r\n" ++ (lines.flatMap (· ++ ascii "\r\n") ++ rest) := by
        rw [hbuffer, List.flatMap_cons, List.append_assoc]
      obtain ⟨q, hq, hrest, hbody, hnext⟩ :=
        headers_of_line hline hne hstate hsplit hadv hdone
      obtain ⟨q', hq', hrest', hbody', hnext'⟩ := ih hmore hq hrest hnext
      exact ⟨q', hq', hrest', hbody'.trans hbody, hnext'⟩

theorem headers_of_requestLine {p p' : RequestParser} {line rest : Bytes} (hline : LF ∉ line)
    (hstate : p.state = .requestLine) (hbuffer : p.buffer = line ++ ascii "\r\n" ++ rest)
    (hadv : Advances p p') (hdone : p'.state = .done) :
    ∃ q : RequestParser, q.state = .headers ∧ q.buffer = rest ∧
      q.request.buffer = p.request.buffer ∧ Advances q p' := by
  have hturn : p.turn = parseRequestLine { p with buffer := rest } line := by
    simp only [turn, hstate, processRequestLine, hbuffer, cutLine_crlf hline]
  have hends := parseRequestLine_ends { p with buffer := rest } line
  have hbody := body_parseRequestLine { p with buffer := rest } line
  rw [← hturn] at hends hbody
  cases hadv with
  | stopped hstop => simp [hstate] at hstop
  | waits hgo hwait =>
      rw [hwait] at hends
      cases hdone.symm.trans (hends.not_waiting rfl)
  | @again _ q _ hgo hagain hrest =>
      rw [hagain] at hends hbody
      refine ⟨q, ?_, hends.buffer_eq, hbody, hrest⟩
      rcases hends.state_mem with ⟨-, hmem⟩ | ⟨hfalse, -⟩
      · simpa using hmem
      · cases hfalse

theorem OneLine.requestLineBytes {r : HttpRequest} (h : OneLine r) : LF ∉ r.requestLineBytes := by
  have hblank : LF ∉ ascii " " := by decide
  have hversion : LF ∉ ascii "HTTP/1.1" := by decide
  simp only [HttpRequest.requestLineBytes, List.mem_append, not_or, h.method]
  exact ⟨⟨⟨⟨RequestHead.method_noLF r.method, hblank⟩, h.uri.2⟩, hblank⟩, hversion⟩

theorem OneLine.headerLine {r : HttpRequest} (h : OneLine r) (it : HttpResponse.Iteration)
    {header : Sigma fun _ : Bytes => Bytes} (hmem : header ∈ it.order r.headers) :
    LF ∉ HttpRequest.headerLine header ∧ HttpRequest.headerLine header ≠ [] := by
  have hentry := (it.perm r.headers).subset hmem
  obtain ⟨hname, hvalue⟩ := h.header (AList.mem_lookup_iff.2 hentry)
  have hcolon : LF ∉ ascii ": " := by decide
  constructor
  · simp only [HttpRequest.headerLine, List.mem_append, not_or]
    exact ⟨⟨hname, hcolon⟩, hvalue⟩
  · simp [HttpRequest.headerLine, ascii]

/-- A request that came of the bytes has less of a body than was written. -/
theorem length_body_lt {r : HttpRequest} (h : OneLine r) (it : HttpResponse.Iteration)
    (hdone : (feed {} (r.toBytes it)).state = .done) :
    (feed {} (r.toBytes it)).request.buffer.length < r.buffer.length := by
  rw [feed_fresh] at hdone ⊢
  have hadv := advances_advance { buffer := r.toBytes it }
  have hbytes : r.toBytes it = r.requestLineBytes ++ ascii "\r\n" ++
      (((it.order r.headers).map HttpRequest.headerLine).flatMap (· ++ ascii "\r\n") ++
        r.buffer) := by
    rw [HttpRequest.toBytes, List.flatMap_map, List.append_assoc _ _ r.buffer]
  have hlines : ∀ line ∈ (it.order r.headers).map HttpRequest.headerLine,
      LF ∉ line ∧ line ≠ [] := by
    intro line hmem
    obtain ⟨header, hheader, rfl⟩ := List.mem_map.1 hmem
    exact h.headerLine it hheader
  obtain ⟨q, hq, hrest, hbody, hnext⟩ :=
    headers_of_requestLine h.requestLineBytes rfl hbytes hadv hdone
  obtain ⟨q', hq', hrest', hbody', hnext'⟩ := headers_of_lines _ hlines hq hrest hnext hdone
  have hlt := stored_lt_of_headers hnext' hq' hdone
  have hempty : q'.request.buffer = [] := hbody'.trans hbody
  simp only [stored, hempty, hrest', List.length_nil] at hlt
  omega

theorem not_readsBack {r : HttpRequest} (h : Delivered r) (it : HttpResponse.Iteration) :
    ¬ ReadsBack it r := by
  obtain ⟨p, hreached, -, rfl⟩ := h
  rintro ⟨hhas, -, -, -, hbody, -⟩
  simp only [hasRequest, decide_eq_true_eq] at hhas
  have hlt := length_body_lt (oneLine_of_reached hreached) it hhas
  have heq := congrArg List.length hbody
  exact absurd heq hlt.ne

/--
Of no request that the parser delivers are the bytes read back: without the blank
line the parser waits, or it takes the body for header lines.
-/
theorem toBytes_never_readsBack (r : HttpRequest) (h : Delivered r)
    (it : HttpResponse.Iteration) : ¬ ReadsBack it r :=
  not_readsBack h it

/-- The shortest request. -/
def plainGet : HttpRequest := (feed {} (ascii "GET / HTTP/1.1\r\n\r\n")).request

theorem delivered_plainGet : Delivered plainGet := by
  refine ⟨feed {} (ascii "GET / HTTP/1.1\r\n\r\n"), ?_, by decide, rfl⟩
  exact .step (l := .feed (ascii "GET / HTTP/1.1\r\n\r\n")) (.init rfl) trivial rfl

theorem toBytes_never_readsBack_get : ¬ ReadsBack .inOrder plainGet :=
  toBytes_never_readsBack plainGet delivered_plainGet .inOrder

theorem toBytes_not_readsBack :
    ¬ ∀ r, Delivered r → ∀ it, ReadsBack it r :=
  fun hall => not_readsBack delivered_plainGet .inOrder (hall _ delivered_plainGet .inOrder)

end RequestParser
end CppHttpd
