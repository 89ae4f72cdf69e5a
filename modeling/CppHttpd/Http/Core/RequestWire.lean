import CppHttpd.Http.Core.ParserStream
import CppHttpd.Http.Core.RequestLine

/-!
# Requests on the wire

Request heads written line by line, every line with a terminator of its own,
and what the parser makes of them.
-/

namespace CppHttpd

open CppHttpd.Foundation

/-! ## Lines -/

inductive LineEnd where
  | crlf
  | lf
  deriving DecidableEq, Repr

def LineEnd.bytes : LineEnd → Bytes
  | .crlf => [CR, LF]
  | .lf => [LF]

/-- A line that neither ends early nor lends its last byte to its terminator. -/
structure CleanLine (line : Bytes) : Prop where
  noLF : LF ∉ line
  noTrailingCR : line.getLast? ≠ some CR

theorem cleanLine_nil : CleanLine [] := ⟨by simp, by simp⟩

theorem CleanLine.append {line tail : Bytes} (htail : CleanLine tail)
    (hne : tail ≠ []) (hline : LF ∉ line) : CleanLine (line ++ tail) where
  noLF := by simpa using ⟨hline, htail.noLF⟩
  noTrailingCR := by
    rw [List.getLast?_append_of_ne_nil _ hne]
    exact htail.noTrailingCR

theorem cutLine_clean {line : Bytes} (h : CleanLine line) (lineEnd : LineEnd)
    (rest : Bytes) : cutLine (line ++ lineEnd.bytes ++ rest) = some (line, rest) := by
  cases lineEnd with
  | crlf =>
      have hraw : LF ∉ line ++ [CR] := by
        simpa using ⟨h.noLF, (by decide : LF ≠ CR)⟩
      have hcut := cutLine_append hraw rest
      simpa [LineEnd.bytes, dropCR] using hcut
  | lf =>
      have hcut := cutLine_append h.noLF rest
      simpa [LineEnd.bytes, dropCR, h.noTrailingCR] using hcut

structure HeaderLine where
  line : Bytes
  lineEnd : LineEnd
  clean : CleanLine line
  named : (parseHeaderLine line true).1 ≠ []

namespace HeaderLine

def name (h : HeaderLine) : Bytes := (parseHeaderLine h.line true).1

def value (h : HeaderLine) : Bytes := (parseHeaderLine h.line true).2

def bytes (h : HeaderLine) : Bytes := h.line ++ h.lineEnd.bytes

theorem line_ne_nil (h : HeaderLine) : h.line ≠ [] := by
  intro hnil
  apply h.named
  rw [hnil]
  decide

end HeaderLine

structure RequestHead where
  method : Method
  uri : Bytes
  version : Bytes
  lineEnd : LineEnd
  headers : List HeaderLine
  blankEnd : LineEnd
  uri_ne : uri ≠ []
  uri_noSP : SP ∉ uri
  uri_noLF : LF ∉ uri
  version_ne : trim version ≠ []
  version_noSP : SP ∉ version
  version_clean : CleanLine version

namespace RequestHead

def requestLine (h : RequestHead) : Bytes :=
  h.method.toBytes ++ SP :: (h.uri ++ SP :: h.version)

def headerBytes (headers : List HeaderLine) : Bytes := headers.flatMap HeaderLine.bytes

def bytes (h : RequestHead) : Bytes :=
  h.requestLine ++ h.lineEnd.bytes ++ headerBytes h.headers ++ h.blankEnd.bytes

def storeAll (headers : HeaderMap) (lines : List HeaderLine) : HeaderMap :=
  lines.foldl (fun headers h => headers.insert h.name h.value) headers

def lineRequest (h : RequestHead) : HttpRequest :=
  { method := h.method, methodStr := h.method.toBytes, uri := h.uri }

/-- What the head says; the body and its length are still missing. -/
def request (h : RequestHead) : HttpRequest :=
  { h.lineRequest with headers := storeAll ∅ h.headers }

/-- The declared length as `content_length` records it. -/
def recordedLength (cl : Nat) : UInt16 := UInt16.ofNat (if cl > 65535 then 65535 else cl)

/-- The request delivered for the head, its declared length and the body taken for it. -/
def deliver (h : RequestHead) (cl : Nat) (body : Bytes) : HttpRequest :=
  { h.request with contentLength := recordedLength cl, buffer := body }

theorem method_noSP (m : Method) : SP ∉ m.toBytes := by cases m <;> decide

theorem method_noLF (m : Method) : LF ∉ m.toBytes := by cases m <;> decide

theorem method_ne_nil (m : Method) : m.toBytes ≠ [] := by cases m <;> decide

def words (h : RequestHead) : RequestWords where
  word := h.method.toBytes
  uri := h.uri
  version := h.version
  word_noSP := method_noSP h.method
  uri_noSP := h.uri_noSP
  version_noSP := h.version_noSP

theorem version_ne_nil (h : RequestHead) : h.version ≠ [] := by
  intro hnil
  apply h.version_ne
  rw [hnil]
  decide

theorem requestLine_clean (h : RequestHead) : CleanLine h.requestLine := by
  have hsplit : h.requestLine =
      (h.method.toBytes ++ SP :: (h.uri ++ [SP])) ++ h.version := by
    simp [requestLine]
  rw [hsplit]
  apply h.version_clean.append h.version_ne_nil
  simpa using ⟨method_noLF h.method, by decide, h.uri_noLF, by decide⟩

end RequestHead

/-! ## Reading the lines -/

namespace RequestParser

theorem parseRequestLine_requestLine (p : RequestParser) (h : RequestHead) :
    p.parseRequestLine h.requestLine =
      acceptMethod { p with request := { p.request with uri := h.uri } } h.method := by
  have hread := p.parseRequestLine_words h.words
  simp only [RequestHead.words, h.version_ne, h.uri_ne, RequestHead.method_ne_nil, or_self,
    if_false, methodOf_toBytes] at hread
  exact hread

theorem steps_requestLine (h : RequestHead) (rest : Bytes) :
    consumer.Steps { buffer := h.requestLine ++ h.lineEnd.bytes ++ rest } []
      { buffer := rest, state := .headers, request := h.lineRequest } := by
  apply steps_of_consume
  simp only [consume, turn, processRequestLine, cutLine_clean h.requestLine_clean]
  rw [parseRequestLine_requestLine]
  simp [acceptMethod, RequestHead.lineRequest]

theorem step_header (p : RequestParser) (hstate : p.state = .headers)
    (h : HeaderLine) (rest : Bytes) :
    consume { p with buffer := h.bytes ++ rest } =
      some ([], { p with
        buffer := rest
        request := { p.request with
          headers := p.request.headers.insert h.name h.value } }) := by
  have hstore : storeHeader { p with buffer := rest } h.line =
      (true, { p with
        buffer := rest
        request := { p.request with
          headers := p.request.headers.insert h.name h.value } }) := by
    simp [storeHeader, h.named, HeaderLine.name, HeaderLine.value]
  simp only [consume, turn, hstate, processHeaders, HeaderLine.bytes,
    cutLine_clean h.clean, if_neg h.line_ne_nil]
  simp only [hstate] at hstore
  rw [hstore]
  simp

theorem steps_headers (lines : List HeaderLine) (rest : Bytes) {p : RequestParser}
    (hstate : p.state = .headers) :
    consumer.Steps { p with buffer := RequestHead.headerBytes lines ++ rest } []
      { p with
        buffer := rest
        request := { p.request with
          headers := RequestHead.storeAll p.request.headers lines } } := by
  induction lines generalizing p with
  | nil => exact .refl _
  | cons h lines ih =>
      have hstep := step_header p hstate h (RequestHead.headerBytes lines ++ rest)
      have htail := ih (p := { p with request := { p.request with
        headers := p.request.headers.insert h.name h.value } }) hstate
      have happ : RequestHead.headerBytes (h :: lines) ++ rest =
          h.bytes ++ (RequestHead.headerBytes lines ++ rest) := by
        simp [RequestHead.headerBytes]
      rw [happ]
      exact (steps_of_consume hstep).trans htail

theorem steps_head (h : RequestHead) (rest : Bytes) :
    consumer.Steps { buffer := h.bytes ++ rest } []
      { buffer := h.blankEnd.bytes ++ rest, state := .headers, request := h.request } := by
  have hsplit : h.bytes ++ rest = h.requestLine ++ h.lineEnd.bytes ++
      (RequestHead.headerBytes h.headers ++ (h.blankEnd.bytes ++ rest)) := by
    simp [RequestHead.bytes]
  have hline := steps_requestLine h
    (RequestHead.headerBytes h.headers ++ (h.blankEnd.bytes ++ rest))
  have hheaders := steps_headers h.headers (h.blankEnd.bytes ++ rest)
    (p := { state := .headers, request := h.lineRequest }) rfl
  rw [hsplit]
  exact hline.trans hheaders

/-! ## The declared length -/

theorem steps_blank {request : HttpRequest} {cl : Nat} (lineEnd : LineEnd) (rest : Bytes)
    (hlength : endHeaders { buffer := rest, state := .headers, request := request } =
      acceptLength { buffer := rest, state := .headers, request := request } cl)
    (hmax : cl ≤ MAX_BODY_SIZE) :
    consumer.Steps
      { buffer := lineEnd.bytes ++ rest, state := .headers, request := request } []
      { buffer := rest
        state := if request.method = .POST ∧ cl > 0 then .body else .done
        request := { request with contentLength := RequestHead.recordedLength cl }
        bodyBytesRemaining := cl } := by
  have hcut := cutLine_clean cleanLine_nil lineEnd rest
  rw [List.nil_append] at hcut
  apply steps_of_consume
  simp only [consume, turn, processHeaders, hcut, if_true, hlength, acceptLength,
    if_neg (not_lt.mpr hmax)]
  simp [RequestHead.recordedLength]

theorem step_body {p : RequestParser} (hstate : p.state = .body) {body : Bytes}
    (rest : Bytes) (hpos : 0 < body.length)
    (hlen : p.bodyBytesRemaining = body.length) :
    consume { p with buffer := body ++ rest } =
      some ([], { p with
        buffer := rest
        request := { p.request with buffer := body }
        bodyBytesRemaining := 0
        state := .done }) := by
  have hne : body ≠ [] := by rintro rfl; simp at hpos
  have hlong : ¬ body.length + rest.length < body.length := by omega
  simp [consume, turn, hstate, processBody, hlen, hne, hlong]

/-! ## Heads with a declared body length -/

theorem lookup_storeAll (name : Bytes) (lines : List HeaderLine) (headers : HeaderMap) :
    (RequestHead.storeAll headers lines).lookup name =
      ((lines.filter (·.name = name)).getLast?.map HeaderLine.value).or
        (headers.lookup name) :=
  lookup_foldl_insert HeaderLine.name HeaderLine.value name lines headers

/-- The head declares, once, a body of `cl` bytes that the parser does not refuse. -/
structure DeclaresLength (h : RequestHead) (cl : Nat) : Prop where
  once : ∃ l, h.headers.filter (·.name = ascii "content-length") = [l] ∧
    decimalValue l.value = some cl
  within : cl ≤ MAX_BODY_SIZE

theorem DeclaresLength.endHeaders {h : RequestHead} {cl : Nat} (hcl : DeclaresLength h cl)
    {p : RequestParser} (hp : p.request = h.request) :
    p.endHeaders = p.acceptLength cl := by
  obtain ⟨l, hfilter, hvalue⟩ := hcl.once
  have hmax : cl < 2 ^ 63 := by
    have := hcl.within
    simp only [MAX_BODY_SIZE] at this
    omega
  have hlookup : p.request.headers.lookup (ascii "content-length") = some l.value := by
    rw [hp]
    simp [RequestHead.request, lookup_storeAll, hfilter]
  have hnonneg : ¬ (cl : Int) < 0 := by omega
  unfold RequestParser.endHeaders
  rw [hlookup]
  simp [stoll_of_decimalValue hvalue hmax, hnonneg]

theorem steps_declared {h : RequestHead} {cl : Nat} (hcl : DeclaresLength h cl)
    (rest : Bytes) :
    consumer.Steps { buffer := h.bytes ++ rest } []
      { buffer := rest
        state := if h.method = .POST ∧ cl > 0 then .body else .done
        request := h.deliver cl []
        bodyBytesRemaining := cl } :=
  (steps_head h rest).trans
    (steps_blank h.blankEnd rest (hcl.endHeaders rfl) hcl.within)

theorem feed_declared_post {h : RequestHead} {cl : Nat} (hcl : DeclaresLength h cl)
    (hpost : h.method = .POST) {body : Bytes} (hbody : body.length = cl) (t : Bytes) :
    feed {} (h.bytes ++ (body ++ t)) =
      { buffer := t, state := .done, request := h.deliver cl body } := by
  have hhead := steps_declared hcl (body ++ t)
  rw [feed_fresh]
  refine advance_eq_of_steps ?_ (.inl rfl)
  by_cases hpos : 0 < cl
  · rw [if_pos ⟨hpost, hpos⟩] at hhead
    have hstep := step_body (p := { state := .body, request := h.deliver cl []
                                    bodyBytesRemaining := cl }) rfl t
      (hbody ▸ hpos) hbody.symm
    exact hhead.trans (steps_of_consume hstep)
  · obtain rfl : cl = 0 := by omega
    obtain rfl : body = [] := List.eq_nil_of_length_eq_zero hbody
    simpa using hhead

theorem feed_declared_other {h : RequestHead} {cl : Nat} (hcl : DeclaresLength h cl)
    (hpost : h.method ≠ .POST) (rest : Bytes) :
    feed {} (h.bytes ++ rest) =
      { buffer := rest, state := .done, request := h.deliver cl []
        bodyBytesRemaining := cl } := by
  have hhead := steps_declared hcl rest
  rw [if_neg (fun hc => hpost hc.1)] at hhead
  rw [feed_fresh]
  exact advance_eq_of_steps hhead (.inl rfl)

end RequestParser
end CppHttpd
