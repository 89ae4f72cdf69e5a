import CppHttpd.Http.Core.ContentLength
import CppHttpd.Http.Core.LineLimits

/-!
# Heads with more than one framing

`process_headers` folds the header lines into a map and, at the blank line,
looks up `content-length`.  Whatever else a head says about the length of its
body is lost or never looked at: the last such line frames the request.
-/

namespace CppHttpd

open CppHttpd.Foundation

/-! ## Heads -/

structure HeadLine where
  line : Bytes
  lineEnd : LineEnd
  clean : CleanLine line
  line_ne : line ≠ []

namespace HeadLine

def name (l : HeadLine) : Bytes := (parseHeaderLine l.line true).1

def value (l : HeadLine) : Bytes := (parseHeaderLine l.line true).2

def bytes (l : HeadLine) : Bytes := l.line ++ l.lineEnd.bytes

end HeadLine

/-- A head as it is sent, whether it can be read or not. -/
structure HeadText where
  requestLine : Bytes
  requestEnd : LineEnd
  requestLine_clean : CleanLine requestLine
  fields : List HeadLine
  blankEnd : LineEnd

namespace HeadText

def bytes (h : HeadText) : Bytes :=
  h.requestLine ++ h.requestEnd.bytes ++ (h.fields.flatMap HeadLine.bytes ++ h.blankEnd.bytes)

/-- No line of the head can run into the limit, however it is cut. -/
structure WithinLimits (h : HeadText) : Prop where
  requestLine : h.requestLine.length < MAX_REQUEST_LINE
  fields : ∀ l ∈ h.fields, l.line.length < MAX_HEADER_LINE

/-- The values under a name, in the order of the lines. -/
def values (h : HeadText) (name : Bytes) : List Bytes :=
  (h.fields.filter (·.name = name)).map HeadLine.value

/-- Two different lengths, or an encoding. -/
def Ambiguous (h : HeadText) : Prop :=
  (∃ v ∈ h.values (ascii "content-length"), ∃ v' ∈ h.values (ascii "content-length"), v ≠ v') ∨
    h.values (ascii "transfer-encoding") ≠ []

/-- The length that is taken from the value found at the blank line. -/
def acceptedLength : Option Bytes → Option Nat
  | none => some 0
  | some value =>
      match stoll value with
      | .error _ => none
      | .ok v => if 0 ≤ v ∧ v.toNat ≤ MAX_BODY_SIZE then some v.toNat else none

/-- The head can be read, and its last declared length is `cl`. -/
structure Accepted (h : HeadText) (method : Method) (cl : Nat) : Prop where
  words : ∃ w : RequestWords, w.line = h.requestLine ∧ RequestParser.Readable w ∧
    method.toBytes = w.word
  named : ∀ l ∈ h.fields, l.name ≠ []
  length : acceptedLength (h.values (ascii "content-length")).getLast? = some cl

end HeadText

def storeFields (headers : HeaderMap) (fields : List HeadLine) : HeaderMap :=
  fields.foldl (fun headers l => headers.insert l.name l.value) headers

theorem lookup_storeFields (name : Bytes) (fields : List HeadLine) :
    (storeFields ∅ fields).lookup name =
      ((fields.filter (·.name = name)).map HeadLine.value).getLast? := by
  have hlookup := lookup_foldl_insert HeadLine.name HeadLine.value name fields ∅
  rw [AList.lookup_empty, Option.or_none] at hlookup
  rw [List.getLast?_map]
  exact hlookup

namespace RequestParser

/-! ## Reading a head in pieces -/

theorem overLimit_length {p : RequestParser} {unread : List Bytes} {raw rest : Bytes}
    (hstream : p.buffer ++ unread.flatten = raw ++ LF :: rest) (h : OverLimit p unread) :
    lineLimit p < raw.length := by
  obtain ⟨taken, later, rfl, hopen, hlong⟩ := h
  rw [List.flatten_append, ← List.append_assoc] at hstream
  rcases List.append_eq_append_iff.1 hstream with ⟨more, hmore, -⟩ | ⟨more, hmore, hrest⟩
  · rw [hmore, List.length_append]
    omega
  · cases more with
    | nil =>
        rw [List.append_nil] at hmore
        rwa [← hmore]
    | cons c more =>
        obtain ⟨rfl, -⟩ := List.cons.inj hrest
        exact absurd (by simp [hmore]) hopen

/-- A line within the limit is read, whatever the reads are. -/
theorem receives_line {p : RequestParser} (hat : AtLine p) {line : Bytes} (hline : CleanLine line)
    (hshort : line.length < lineLimit p) (lineEnd : LineEnd) {rest : Bytes} {unread : List Bytes}
    (hstream : p.buffer ++ unread.flatten = line ++ lineEnd.bytes ++ rest) :
    ∃ held unread', held ++ unread'.flatten = rest ∧
      Receives p unread [] (p.readLine line held) unread' := by
  obtain ⟨raw, hraw, hdrop, hlen, hbytes⟩ : ∃ raw, LF ∉ raw ∧ dropCR raw = line ∧
      raw.length ≤ line.length + 1 ∧ line ++ lineEnd.bytes ++ rest = raw ++ LF :: rest := by
    cases lineEnd with
    | crlf =>
        refine ⟨line ++ [CR], ?_, by simp [dropCR], by simp, by simp [LineEnd.bytes]⟩
        simpa using ⟨hline.noLF, (by decide : LF ≠ CR)⟩
    | lf =>
        exact ⟨line, hline.noLF, by simp [dropCR, hline.noTrailingCR], by omega,
          by simp [LineEnd.bytes]⟩
  rw [hbytes] at hstream
  have hturn := lineTurn hat hraw hstream
  rw [hdrop] at hturn
  cases hturn with
  | tooLong hover _ _ =>
      have := overLimit_length hstream hover
      omega
  | @reads held unread' _ hrest hnext =>
      exact ⟨held, unread', hrest, Consumer.receives_of_next hnext⟩

theorem readLine_field {p : RequestParser} (hstate : p.state = .headers) {l : HeadLine}
    (hnamed : l.name ≠ []) (held : Bytes) :
    p.readLine l.line held = { p with
      buffer := held
      request := { p.request with headers := p.request.headers.insert l.name l.value } } := by
  have hname : (parseHeaderLine l.line true).1 ≠ [] := hnamed
  simp [readLine, hstate, l.line_ne, storeHeader, hname, HeadLine.name, HeadLine.value]

/-- The header lines, one after the other, up to the first without a name. -/
theorem receives_fields {p : RequestParser} (hstate : p.state = .headers) {fields : List HeadLine}
    (hshort : ∀ l ∈ fields, l.line.length < MAX_HEADER_LINE) {tail : Bytes}
    {unread : List Bytes}
    (hstream : p.buffer ++ unread.flatten = fields.flatMap HeadLine.bytes ++ tail) :
    ((∃ l ∈ fields, l.name = []) ∧
        ∃ p' unread', Receives p unread [] p' unread' ∧ Halted p') ∨
      (∀ l ∈ fields, l.name ≠ []) ∧
        ∃ held unread', held ++ unread'.flatten = tail ∧
          Receives p unread []
            { p with
              buffer := held
              request := { p.request with
                headers := storeFields p.request.headers fields } } unread' := by
  induction fields generalizing p unread with
  | nil => exact .inr ⟨by simp, p.buffer, unread, hstream, .refl _ _⟩
  | cons l fields ih =>
      have hat : AtLine p := .inr hstate
      have hlimit : l.line.length < lineLimit p := by
        rw [lineLimit, if_neg (by simp [hstate])]
        exact hshort l List.mem_cons_self
      rw [List.flatMap_cons, List.append_assoc] at hstream
      obtain ⟨held, unread₁, hrest, hline⟩ :=
        receives_line hat l.clean hlimit l.lineEnd hstream
      by_cases hnamed : l.name = []
      · left
        refine ⟨⟨l, List.mem_cons_self, hnamed⟩, _, unread₁, hline, ?_⟩
        rw [readLine_halted_iff hat l.line_ne, Unreadable, if_neg (by simp [hstate])]
        exact hnamed
      · rw [readLine_field hstate hnamed] at hline
        have hfields := ih (p := { p with
            buffer := held
            request := { p.request with headers := p.request.headers.insert l.name l.value } })
          hstate (fun l' hl' => hshort l' (List.mem_cons_of_mem _ hl')) hrest
        rcases hfields with ⟨⟨l', hl', hnone⟩, p', unread₂, hmore, herror⟩ |
          ⟨hall, held', unread₂, htail, hmore⟩
        · exact .inl ⟨⟨l', List.mem_cons_of_mem _ hl', hnone⟩, p', unread₂, hline.trans hmore,
            herror⟩
        · exact .inr ⟨List.forall_mem_cons.2 ⟨hnamed, hall⟩, held', unread₂, htail,
            hline.trans hmore⟩

/-! ## The body in pieces -/

theorem processBody_short {p : RequestParser} (h : p.buffer.length < p.bodyBytesRemaining) :
    p.processBody = (false, p) := by
  rw [processBody, if_neg (by omega), if_pos h]

theorem consume_body_short {p : RequestParser} (hstate : p.state = .body)
    (h : p.buffer.length < p.bodyBytesRemaining) : consume p = none := by
  have hturn : p.turn = (false, p) := by
    simp only [turn, hstate]
    exact processBody_short h
  simp [consume, hturn, hstate]

theorem consume_body {p : RequestParser} (hstate : p.state = .body)
    (hpos : 0 < p.bodyBytesRemaining) (h : p.bodyBytesRemaining ≤ p.buffer.length) :
    consume p = some ([], { p with
      request := { p.request with buffer := p.buffer.take p.bodyBytesRemaining }
      buffer := p.buffer.drop p.bodyBytesRemaining
      bodyBytesRemaining := 0
      state := .done }) := by
  have hlen : (p.buffer.take p.bodyBytesRemaining).length = p.bodyBytesRemaining := by
    rw [List.length_take]
    omega
  have hstep := step_body hstate (p.buffer.drop p.bodyBytesRemaining) (by omega) hlen.symm
  rw [List.take_append_drop] at hstep
  exact hstep

theorem not_halted_of_body {p : RequestParser} (hstate : p.state = .body) : ¬ Halted p := by
  simp [Halted, hstate]

/-- Induction on the reads: one of them completes the body. -/
theorem receives_body {p : RequestParser} (hstate : p.state = .body)
    (hpos : 0 < p.bodyBytesRemaining) {unread : List Bytes}
    (henough : p.bodyBytesRemaining ≤ (p.buffer ++ unread.flatten).length) :
    ∃ p' unread', Receives p unread [] p' unread' ∧ p'.state = .done ∧
      p'.request = { p.request with
        buffer := (p.buffer ++ unread.flatten).take p.bodyBytesRemaining } ∧
      p'.buffer ++ unread'.flatten =
        (p.buffer ++ unread.flatten).drop p.bodyBytesRemaining := by
  induction unread generalizing p with
  | nil =>
      rw [List.flatten_nil, List.append_nil] at henough ⊢
      exact ⟨_, [], .single (consume_body hstate hpos henough) [], rfl, rfl, by simp⟩
  | cons data unread ih =>
      by_cases hshort : p.buffer.length < p.bodyBytesRemaining
      · rw [List.flatten_cons, ← List.append_assoc] at henough ⊢
        obtain ⟨p', unread', hmore, hrest⟩ := ih (p := p.append data) hstate hpos henough
        have hnone := consume_body_short hstate hshort
        exact ⟨p', unread', .take hnone (not_halted_of_body hstate) hmore, hrest⟩
      · have hall : p.bodyBytesRemaining ≤ p.buffer.length := by omega
        refine ⟨_, data :: unread, .single (consume_body hstate hpos hall) _, rfl, ?_, ?_⟩
        · rw [List.take_append_of_le_length hall]
        · rw [List.drop_append_of_le_length hall]

theorem receives_body_short {p : RequestParser} (hstate : p.state = .body)
    {unread : List Bytes} (h : (p.buffer ++ unread.flatten).length < p.bodyBytesRemaining) :
    Receives p unread [] (p.append unread.flatten) [] := by
  induction unread generalizing p with
  | nil =>
      rw [List.flatten_nil, append_nil]
      exact .refl _ _
  | cons data unread ih =>
      have hshort : p.buffer.length < p.bodyBytesRemaining := by
        rw [List.length_append] at h
        omega
      rw [List.flatten_cons, ← List.append_assoc] at h
      rw [List.flatten_cons, ← append_append]
      exact .take (consume_body_short hstate hshort) (not_halted_of_body hstate)
        (ih (p := p.append data) hstate h)

/-! ## What frames a request -/

theorem endHeaders_accepted {p : RequestParser} {cl : Nat}
    (h : HeadText.acceptedLength (p.request.headers.lookup (ascii "content-length")) = some cl) :
    p.endHeaders = p.acceptLength cl ∧ cl ≤ MAX_BODY_SIZE := by
  cases hvalue : p.request.headers.lookup (ascii "content-length") with
  | none =>
      rw [hvalue] at h
      obtain rfl := Option.some.inj h
      refine ⟨?_, by decide⟩
      simp only [endHeaders, hvalue]
  | some value =>
      rw [hvalue, HeadText.acceptedLength] at h
      cases hread : stoll value with
      | error e =>
          rw [hread] at h
          cases h
      | ok v =>
          simp only [hread] at h
          split_ifs at h with hv
          obtain rfl := Option.some.inj h
          exact ⟨endHeaders_of_nonneg hvalue hread hv.1, hv.2⟩

theorem endHeaders_refused {p : RequestParser}
    (h : HeadText.acceptedLength (p.request.headers.lookup (ascii "content-length")) = none) :
    Halted p.endHeaders.2 := by
  cases hvalue : p.request.headers.lookup (ascii "content-length") with
  | none =>
      rw [hvalue] at h
      cases h
  | some value =>
      by_cases hnonneg : ∃ v : Int, stoll value = .ok v ∧ 0 ≤ v
      · obtain ⟨v, hread, hv⟩ := hnonneg
        rw [hvalue, HeadText.acceptedLength] at h
        simp only [hread] at h
        split_ifs at h with hrange
        have hlarge : MAX_BODY_SIZE < v.toNat := by
          by_contra hle
          exact hrange ⟨hv, by omega⟩
        rw [endHeaders_of_nonneg hvalue hread hv]
        exact (acceptLength_of_gt hlarge).1
      · rw [endHeaders_of_no_length hvalue hnonneg]
        rfl

theorem accepted_unique {h : HeadText} {method method' : Method} {cl cl' : Nat}
    (first : h.Accepted method cl) (second : h.Accepted method' cl') :
    method = method' ∧ cl = cl' := by
  obtain ⟨w, hw, -, hm⟩ := first.words
  obtain ⟨w', hw', -, hm'⟩ := second.words
  have hword := (RequestWords.eq_of_line_eq (hw.trans hw'.symm)).1
  constructor
  · apply Option.some.inj
    rw [← methodOf_toBytes method, ← methodOf_toBytes method', hm, hm', hword]
  · exact Option.some.inj (first.length.symm.trans second.length)

/-- The parser behind an accepted head. -/
def behindHead (request : HttpRequest) (cl : Nat) (held : Bytes) : RequestParser where
  buffer := held
  state := if request.method = .POST ∧ 0 < cl then .body else .done
  request := { request with contentLength := RequestHead.recordedLength cl }
  bodyBytesRemaining := cl

theorem readLine_blank {p : RequestParser} (hstate : p.state = .headers) (held : Bytes) :
    p.readLine [] held = (endHeaders { p with buffer := held }).2 := by
  simp [readLine, hstate]

/-- The blank line of a head whose other lines have been read. -/
theorem receives_blank {p : RequestParser} (hstate : p.state = .headers) (blankEnd : LineEnd)
    {rest : Bytes} {unread : List Bytes}
    (hstream : p.buffer ++ unread.flatten = blankEnd.bytes ++ rest) :
    (HeadText.acceptedLength (p.request.headers.lookup (ascii "content-length")) = none ∧
        ∃ p' unread', Receives p unread [] p' unread' ∧ Halted p') ∨
      ∃ cl held unread',
        HeadText.acceptedLength (p.request.headers.lookup (ascii "content-length")) = some cl ∧
          held ++ unread'.flatten = rest ∧
          Receives p unread [] ({ p with buffer := held }.acceptLength cl).2 unread' ∧
          cl ≤ MAX_BODY_SIZE := by
  have hat : AtLine p := .inr hstate
  have hshort : ([] : Bytes).length < lineLimit p := by
    rw [lineLimit, if_neg (by simp [hstate])]
    decide
  obtain ⟨held, unread', hrest, hline⟩ :=
    receives_line hat cleanLine_nil hshort blankEnd (by simpa using hstream)
  rw [readLine_blank hstate] at hline
  cases hlength : HeadText.acceptedLength
      (p.request.headers.lookup (ascii "content-length")) with
  | none =>
      exact .inl ⟨rfl, _, unread', hline, endHeaders_refused (p := { p with buffer := held }) hlength⟩
  | some cl =>
      obtain ⟨hend, hmax⟩ := endHeaders_accepted (p := { p with buffer := held }) hlength
      rw [hend] at hline
      exact .inr ⟨cl, held, unread', rfl, hrest, hline, hmax⟩

theorem acceptLength_eq_behindHead {request : HttpRequest} {cl : Nat} (hmax : cl ≤ MAX_BODY_SIZE)
    (held : Bytes) :
    (acceptLength { buffer := held, state := .headers, request := request } cl).2 =
      behindHead request cl held := by
  rw [acceptLength, if_neg (by omega)]
  rfl

/-- The fields and the blank line of a head are refused, or they are behind the parser. -/
theorem receives_headers (request : HttpRequest) (hfresh : request.headers = ∅) {h : HeadText}
    (hlimits : h.WithinLimits) {buffer : Bytes} {unread : List Bytes} {rest : Bytes}
    (hstream : buffer ++ unread.flatten =
      h.fields.flatMap HeadLine.bytes ++ (h.blankEnd.bytes ++ rest)) :
    (((∃ l ∈ h.fields, l.name = []) ∨ HeadText.acceptedLength (h.values (ascii "content-length")).getLast? = none) ∧
        ∃ p' unread', Receives { buffer := buffer, state := .headers, request := request }
          unread [] p' unread' ∧ Halted p') ∨
      ∃ cl held unread', (∀ l ∈ h.fields, l.name ≠ []) ∧
        HeadText.acceptedLength (h.values (ascii "content-length")).getLast? = some cl ∧ held ++ unread'.flatten = rest ∧
        Receives { buffer := buffer, state := .headers, request := request } unread []
          (behindHead { request with headers := storeFields ∅ h.fields } cl held) unread' := by
  have hfields := receives_fields
    (p := { buffer := buffer, state := .headers, request := request }) rfl hlimits.fields hstream
  rw [hfresh] at hfields
  rcases hfields with ⟨hunnamed, p, unread₂, hmore, herror⟩ |
    ⟨hnamed, held₂, unread₂, hrest₂, hmore⟩
  · exact .inl ⟨.inl hunnamed, p, unread₂, hmore, herror⟩
  · have hblank := receives_blank
      (p := { buffer := held₂, state := .headers
              request := { request with headers := storeFields ∅ h.fields } })
      rfl h.blankEnd hrest₂
    dsimp only at hblank
    rw [lookup_storeFields] at hblank
    rcases hblank with ⟨hlength, p, unread₃, hlast, herror⟩ |
      ⟨cl, held₃, unread₃, hlength, hrest₃, hlast, hmax⟩
    · exact .inl ⟨.inr hlength, p, unread₃, hmore.trans hlast, herror⟩
    · rw [acceptLength_eq_behindHead hmax] at hlast
      exact .inr ⟨cl, held₃, unread₃, hnamed, hlength, hrest₃, hmore.trans hlast⟩

/-- A head is refused at one of its lines, or it is behind the parser. -/
theorem receives_head {h : HeadText} (hlimits : h.WithinLimits) {reads : List Bytes} {rest : Bytes}
    (hreads : reads.flatten = h.bytes ++ rest) :
    ((¬ ∃ method cl, h.Accepted method cl) ∧
        ∃ p unread, Receives {} reads [] p unread ∧ Halted p) ∨
      ∃ request cl held unread, h.Accepted request.method cl ∧ request.buffer = [] ∧
        held ++ unread.flatten = rest ∧
        Receives {} reads [] (behindHead request cl held) unread := by
  have hat : AtLine {} := .inl rfl
  have hstream : ({} : RequestParser).buffer ++ reads.flatten =
      h.requestLine ++ h.requestEnd.bytes ++
        (h.fields.flatMap HeadLine.bytes ++ (h.blankEnd.bytes ++ rest)) := by
    rw [hreads, HeadText.bytes]
    simp
  obtain ⟨held₁, unread₁, hrest₁, hline⟩ :=
    receives_line hat h.requestLine_clean hlimits.requestLine h.requestEnd hstream
  change Receives {} reads [] (parseRequestLine { buffer := held₁ } h.requestLine).2 unread₁
    at hline
  by_cases hwords : ∃ w : RequestWords, w.line = h.requestLine ∧ Readable w
  · obtain ⟨w, hw, hreadable⟩ := hwords
    obtain ⟨method, hmethod, hread⟩ := hreadable.parseRequestLine_eq { buffer := held₁ }
    rw [← hw, hread] at hline
    have hheaders := receives_headers
      { method := method, methodStr := method.toBytes, uri := w.uri } rfl hlimits hrest₁
    rcases hheaders with ⟨hrefused, p, unread₂, hmore, herror⟩ |
      ⟨cl, held₂, unread₂, hnamed, hlength, hrest₂, hmore⟩
    · refine .inl ⟨?_, p, unread₂, hline.trans hmore, herror⟩
      rintro ⟨_, cl, hok⟩
      rcases hrefused with ⟨l, hl, hnone⟩ | hnone
      · exact hok.named l hl hnone
      · cases hnone.symm.trans hok.length
    · exact .inr ⟨_, cl, held₂, unread₂, ⟨⟨w, hw, hreadable, hmethod⟩, hnamed, hlength⟩,
        rfl, hrest₂, hline.trans hmore⟩
  · refine .inl ⟨?_, _, unread₁, hline, (parseRequestLine_error_iff _ _).2 hwords⟩
    rintro ⟨_, _, hok⟩
    obtain ⟨w, hw, hreadable, -⟩ := hok.words
    exact hwords ⟨w, hw, hreadable⟩

/-- The bytes taken for the body of a request: only POST carries one. -/
def bodyLength (method : Method) (cl : Nat) : Nat := if method = .POST then cl else 0

/-- The reads are framed by the last declared length alone. -/
structure FramedByLast (h : HeadText) (rest : Bytes) (reads : List Bytes) : Prop where
  refused : (¬ ∃ method cl, h.Accepted method cl) →
    (driveAll {} reads).1 = [] ∧ Halted (driveAll {} reads).2
  framed : ∀ method cl, h.Accepted method cl → bodyLength method cl ≤ rest.length →
    ∃ p unread, Receives {} reads [] p unread ∧ p.state = .done ∧
      p.request.method = method ∧ p.request.buffer = rest.take (bodyLength method cl) ∧
      p.buffer ++ unread.flatten = rest.drop (bodyLength method cl)
  waiting : ∀ method cl, h.Accepted method cl → rest.length < bodyLength method cl →
    (driveAll {} reads).1 = [] ∧ (driveAll {} reads).2.state = .body

theorem behindHead_body {request : HttpRequest} {cl : Nat} (hpost : request.method = .POST)
    (hpos : 0 < cl) (held : Bytes) : (behindHead request cl held).state = .body :=
  if_pos ⟨hpost, hpos⟩

/-- Without a body the request is complete behind its head. -/
theorem behindHead_done {request : HttpRequest} {cl : Nat}
    (hnone : bodyLength request.method cl = 0) (held : Bytes) :
    (behindHead request cl held).state = .done := by
  unfold bodyLength at hnone
  apply if_neg
  rintro ⟨hpost, hpos⟩
  rw [if_pos hpost] at hnone
  omega

theorem bodyLength_pos {method : Method} {cl : Nat} (h : bodyLength method cl ≠ 0) :
    method = .POST ∧ 0 < cl ∧ bodyLength method cl = cl := by
  unfold bodyLength at h ⊢
  split_ifs at h with hpost
  · exact ⟨hpost, by omega, if_pos hpost⟩
  · exact absurd rfl h

theorem framed_behindHead {request : HttpRequest} {cl : Nat} {held rest : Bytes}
    {unread : List Bytes} (hrest : held ++ unread.flatten = rest)
    (hbuffer : request.buffer = []) (henough : bodyLength request.method cl ≤ rest.length) :
    ∃ p unread', Receives (behindHead request cl held) unread [] p unread' ∧ p.state = .done ∧
      p.request.method = request.method ∧
      p.request.buffer = rest.take (bodyLength request.method cl) ∧
      p.buffer ++ unread'.flatten = rest.drop (bodyLength request.method cl) := by
  by_cases hnone : bodyLength request.method cl = 0
  · refine ⟨_, unread, .refl _ _, behindHead_done hnone held, rfl, ?_, ?_⟩
    · rw [hnone, List.take_zero]
      exact hbuffer
    · rw [hnone, List.drop_zero]
      exact hrest
  · obtain ⟨hpost, hpos, hlen⟩ := bodyLength_pos hnone
    rw [hlen] at henough ⊢
    have hstream : (behindHead request cl held).buffer ++ unread.flatten = rest := hrest
    obtain ⟨p, unread', hbody, hdone, hrequest, hleft⟩ :=
      receives_body (behindHead_body hpost hpos held) hpos (hstream ▸ henough)
    rw [hstream] at hrequest hleft
    exact ⟨p, unread', hbody, hdone, by rw [hrequest]; rfl, by rw [hrequest]; rfl, hleft⟩

theorem waiting_behindHead {request : HttpRequest} {cl : Nat} {held rest : Bytes}
    {unread : List Bytes} (hrest : held ++ unread.flatten = rest)
    (hshort : rest.length < bodyLength request.method cl) :
    ∃ p, Receives (behindHead request cl held) unread [] p [] ∧ p.state = .body ∧
      consume p = none := by
  obtain ⟨hpost, hpos, hlen⟩ := bodyLength_pos (by omega : bodyLength request.method cl ≠ 0)
  have hbody := behindHead_body hpost hpos held
  have hstream : ((behindHead request cl held).buffer ++ unread.flatten).length < cl := by
    change (held ++ unread.flatten).length < cl
    rw [hrest]
    omega
  exact ⟨_, receives_body_short hbody hstream, hbody, consume_body_short hbody hstream⟩

/-- Neither a transfer encoding nor an earlier length has a part in the framing. -/
theorem framedByLast {h : HeadText} (hlimits : h.WithinLimits) {reads : List Bytes} {rest : Bytes}
    (hreads : reads.flatten = h.bytes ++ rest) : FramedByLast h rest reads := by
  rcases receives_head hlimits hreads with ⟨hnone, p, unread, hhead, herror⟩ |
    ⟨request, cl, held, unread, hok, hbuffer, hrest, hhead⟩
  · constructor
    · intro _
      rw [driveAll_of_error hhead herror]
      exact ⟨rfl, herror⟩
    · intro method cl hok
      exact absurd ⟨method, cl, hok⟩ hnone
    · intro method cl hok
      exact absurd ⟨method, cl, hok⟩ hnone
  · constructor
    · intro hnone
      exact absurd ⟨_, cl, hok⟩ hnone
    · intro method cl' hok' henough
      obtain ⟨rfl, rfl⟩ := accepted_unique hok hok'
      obtain ⟨p, unread', hmore, hframed⟩ := framed_behindHead hrest hbuffer henough
      exact ⟨p, unread', hhead.trans hmore, hframed⟩
    · intro method cl' hok' hshort
      obtain ⟨rfl, rfl⟩ := accepted_unique hok hok'
      obtain ⟨p, hmore, hstate, hnone⟩ := waiting_behindHead hrest hshort
      rw [driveAll_of_receives (hhead.trans hmore), Consumer.finish_of_none (M := consumer) hnone]
      exact ⟨rfl, hstate⟩

def twoLengths : HeadText where
  requestLine := ascii "POST / HTTP/1.1"
  requestEnd := .crlf
  requestLine_clean := ⟨by decide, by decide⟩
  fields :=
    [⟨ascii "Content-Length: 10", .crlf, ⟨by decide, by decide⟩, by decide⟩,
      ⟨ascii "content-length: 3", .crlf, ⟨by decide, by decide⟩, by decide⟩]
  blankEnd := .crlf

theorem framedByLast_twoLengths :
    FramedByLast twoLengths (ascii "abcGET /") [twoLengths.bytes ++ ascii "a", ascii "bcGET /"] :=
  framedByLast ⟨by decide, by decide⟩ (by decide)

def encodedLength : HeadText where
  requestLine := ascii "POST / HTTP/1.1"
  requestEnd := .crlf
  requestLine_clean := ⟨by decide, by decide⟩
  fields :=
    [⟨ascii "Content-Length: 3", .crlf, ⟨by decide, by decide⟩, by decide⟩,
      ⟨ascii "Transfer-Encoding: chunked", .crlf, ⟨by decide, by decide⟩, by decide⟩]
  blankEnd := .crlf

/-- Three bytes are the body, and what follows them is the next request. -/
theorem feed_ambiguous_done :
    (twoLengths.Ambiguous ∧ (feed {} (twoLengths.bytes ++ ascii "abcGET /")).state = .done ∧
        (feed {} (twoLengths.bytes ++ ascii "abcGET /")).buffer = ascii "GET /") ∧
      encodedLength.Ambiguous ∧
        (feed {} (encodedLength.bytes ++ ascii "0\r\nGET /")).state = .done ∧
        (feed {} (encodedLength.bytes ++ ascii "0\r\nGET /")).buffer = ascii "GET /" := by
  refine ⟨⟨.inl ⟨ascii "10", ?_, ascii "3", ?_, by decide⟩, by decide, by decide⟩, .inr ?_, ?_, ?_⟩
  all_goals decide

end RequestParser
end CppHttpd
