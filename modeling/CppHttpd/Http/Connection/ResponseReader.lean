import CppHttpd.Http.Connection.Message
import CppHttpd.Http.Core.ResponseDecoder

/-!
# A client that reads its responses

A client that has sent several requests reads one response for each of them.
Where a response ends it has to learn from the method it used, from the status
and from the fields that frame the body; without any of these the body goes on
until the server closes the connection.
-/

namespace CppHttpd

open CppHttpd.Foundation

/-! ## The reader -/

/-- Such a response ends with its header section, whatever its fields say. -/
def hasNoBody (method : Method) (status : Nat) : Bool :=
  method = .HEAD || status / 100 = 1 || status = 204 || status = 304

def readBody (method : Method) (status : Nat) (headers : HeaderMap) (s : Bytes) :
    Option (Bytes × Bytes) :=
  if hasNoBody method status then some ([], s)
  else
    match headers.entries.filter fun header => isFraming header.1 with
    | [] => some (s, [])
    | [⟨name, value⟩] =>
        if isContentLength name then
          (decimalValue value).bind fun length =>
            if s.length < length then none else some (s.take length, s.drop length)
        else if value = ascii "chunked" then decodeChunks (s.length + 1) s
        else none
    -- fields that may contradict each other
    | _ => none

/-- A response to a request of this method, and the bytes behind it. -/
def readResponse (method : Method) (s : Bytes) : Option (DecodedResponse × Bytes) := do
  let (line, rest) ← takeLine s
  let (status, message) ← decodeStatusLine line
  let (headers, rest) ← decodeHeaders (rest.length + 1) ∅ rest
  let (body, behind) ← readBody method status headers rest
  some ({ status, message, headers, body }, behind)

/-- What a client that asked with these methods reads until the connection is closed. -/
def readResponses : List Method → Bytes → Option (List DecodedResponse)
  | [], s => if s = [] then some [] else none
  | method :: methods, s =>
      if s = [] then some []
      else do
        let (response, rest) ← readResponse method s
        let responses ← readResponses methods rest
        some (response :: responses)

/-! ## What is sent -/

/-- A response, the bytes behind its header section, and the body they stand for. -/
structure Transmission where
  response : HttpResponse
  payload : Bytes
  body : Bytes

namespace Transmission

def bytes (it : HttpResponse.Iteration) (t : Transmission) : Bytes :=
  t.response.headersToBytes it ++ t.payload

def status (t : Transmission) : Nat := t.response.statusCode.value.toNat

def framing (t : Transmission) : List (Sigma fun _ : Bytes => Bytes) :=
  t.response.headers.entries.filter fun header => isFraming header.1

/-- The response says where its payload ends. -/
inductive Framed (method : Method) (t : Transmission) : Prop
  | bodiless (hbodiless : hasNoBody method t.status = true) (hpayload : t.payload = [])
      (hbody : t.body = [])
  | length {name value : Bytes} (hbodied : hasNoBody method t.status = false)
      (hframing : t.framing = [⟨name, value⟩]) (hname : isContentLength name = true)
      (hvalue : decimalValue value = some t.payload.length) (hbody : t.body = t.payload)
  | chunked (hbodied : hasNoBody method t.status = false)
      (hframing : t.framing = [⟨ascii "Transfer-Encoding", ascii "chunked"⟩])
      (hpayload : t.payload = { t.response with body := t.body }.bodyToBytes)

/-- The end of the connection is the end of the payload. -/
structure Unframed (method : Method) (t : Transmission) : Prop where
  bodied : hasNoBody method t.status = false
  framing : t.framing = []
  body : t.body = t.payload

/-- What the client reads for it. -/
structure ReadAs (t : Transmission) (decoded : DecodedResponse) : Prop where
  status : (decoded.status : Int) = t.response.statusCode.value
  message : decoded.message = t.response.statusMessage
  headers : decoded.headers.entries.Perm t.response.headers.entries
  body : decoded.body = t.body

end Transmission

/-- One transmission for each method, of which only the last need not be framed. -/
inductive Readable : List Method → List Transmission → Prop
  | nil (methods : List Method) : Readable methods []
  | cons {method : Method} {methods : List Method} {t : Transmission} {ts : List Transmission}
      (hserialisable : Serialisable t.response) (hframed : t.Framed method)
      (hrest : Readable methods ts) : Readable (method :: methods) (t :: ts)
  | last {method : Method} {t : Transmission} (methods : List Method)
      (hserialisable : Serialisable t.response) (hunframed : t.Unframed method) :
      Readable (method :: methods) [t]

/-! ## Responses that can be read -/

structure CleanName (name : Bytes) : Prop where
  ne_nil : name ≠ []
  noColon : COLON ∉ name
  oneLine : CR ∉ name ∧ LF ∉ name

structure CleanValue (value : Bytes) : Prop where
  oneLine : CR ∉ value ∧ LF ∉ value
  first : ∀ c, value.head? = some c → c ≠ SP ∧ c ≠ TAB
  last : ∀ c, value.getLast? = some c → c ≠ SP ∧ c ≠ TAB

instance (name : Bytes) : Decidable (CleanName name) :=
  decidable_of_iff (name ≠ [] ∧ COLON ∉ name ∧ CR ∉ name ∧ LF ∉ name)
    ⟨fun ⟨hne, hcolon, hline⟩ => ⟨hne, hcolon, hline⟩,
      fun ⟨hne, hcolon, hline⟩ => ⟨hne, hcolon, hline⟩⟩

/-- A value that has no byte of the kind that could end it. -/
theorem cleanValue_of_forall {value : Bytes}
    (h : ∀ c ∈ value, c ≠ CR ∧ c ≠ LF ∧ c ≠ SP ∧ c ≠ TAB) : CleanValue value where
  oneLine := ⟨fun hmem => (h _ hmem).1 rfl, fun hmem => (h _ hmem).2.1 rfl⟩
  first c hc := (h c (List.mem_of_head? hc)).2.2
  last c hc := (h c (List.mem_of_getLast? hc)).2.2

/-- The blanks of a value are inside of it. -/
theorem CleanValue.append_cons {front back : Bytes} (hfront : CleanValue front)
    (hback : CleanValue back) (hne : front ≠ [] ∧ back ≠ []) {c : Byte} (hc : c ≠ CR ∧ c ≠ LF) :
    CleanValue (front ++ c :: back) where
  oneLine := by
    simp [hfront.oneLine, hback.oneLine, hc.1.symm, hc.2.symm]
  first d hd := hfront.first d (by rwa [List.head?_append_of_ne_nil _ hne.1] at hd)
  last d hd := hback.last d (by
    rwa [List.getLast?_append_of_ne_nil _ (by simp), List.getLast?_cons_of_ne_nil hne.2] at hd)

theorem statusText_oneLine (code : StatusCode) : CR ∉ code.text ∧ LF ∉ code.text := by
  unfold StatusCode.text
  split <;> decide

theorem serialisable_ofStatus {code : StatusCode} (hcode : 100 ≤ code.value ∧ code.value ≤ 999) :
    Serialisable (.ofStatus code) where
  status := hcode
  message := statusText_oneLine code
  name := nofun
  value := nofun
  value_head := nofun
  value_last := nofun

theorem Serialisable.setHeader {r : HttpResponse} (h : Serialisable r) {name : String}
    {value : Bytes} (hname : CleanName (ascii name)) (hvalue : CleanValue value) :
    Serialisable (r.setHeader name value) := by
  have hmem : ∀ header ∈ (r.setHeader name value).headers.entries,
      header = ⟨ascii name, value⟩ ∨ header ∈ r.headers.entries := by
    intro header hheader
    rcases List.mem_cons.1 hheader with heq | hold
    · exact .inl heq
    · exact .inr ((List.kerase_sublist _ _).subset hold)
  refine ⟨h.status, h.message, fun header hheader => ?_, fun header hheader => ?_,
    fun header hheader => ?_, fun header hheader => ?_⟩
  all_goals
    rcases hmem header hheader with rfl | hold
  · exact ⟨hname.ne_nil, hname.noColon, hname.oneLine⟩
  · exact h.name header hold
  · exact hvalue.oneLine
  · exact h.value header hold
  · exact hvalue.first
  · exact h.value_head header hold
  · exact hvalue.last
  · exact h.value_last header hold

/-- Where the body comes from is not written. -/
theorem Serialisable.withFile {r : HttpResponse} (h : Serialisable r) (bodyFd : Option Fd)
    (bodyFdOffset bodyFdSize : Int) :
    Serialisable { r with bodyFd, bodyFdOffset, bodyFdSize } :=
  ⟨h.status, h.message, h.name, h.value, h.value_head, h.value_last⟩

/-! ## Bodies -/

theorem decodeChunks_bodyToBytes {r : HttpResponse}
    (hchunked : HttpResponse.isChunked r.headers = true) (rest : Bytes) :
    decodeChunks ((r.bodyToBytes ++ rest).length + 1) (r.bodyToBytes ++ rest) =
      some (r.body, rest) := by
  have hlast (fuel : Nat) := decodeChunks_last fuel rest
  have hfive : (ascii "0\r\n\r\n").length = 5 := by decide
  rw [HttpResponse.bodyToBytes, if_pos hchunked]
  split_ifs with hbody
  · obtain ⟨fuel, hfuel⟩ : ∃ fuel, ((HttpResponse.toHex r.body.length ++ HttpResponse.crlf ++
        r.body ++ HttpResponse.crlf ++ ascii "0\r\n\r\n") ++ rest).length = fuel + 2 :=
      Nat.exists_eq_add_of_le' (by simp only [List.length_append]; omega)
    rw [hfuel, List.append_assoc, decodeChunks_chunk hbody, hlast, Option.map_some,
      List.append_nil]
  · simp only [ne_eq, not_not] at hbody
    obtain ⟨fuel, hfuel⟩ : ∃ fuel, (ascii "0\r\n\r\n" ++ rest).length = fuel + 1 :=
      Nat.exists_eq_add_of_le' (by simp only [List.length_append]; omega)
    rw [hbody, List.nil_append, hfuel, hlast]

section

variable {method : Method} {t : Transmission} {headers : HeaderMap}

theorem filter_perm {headers headers' : HeaderMap} (hperm : headers.entries.Perm headers'.entries)
    {p : Bytes → Bool} {found : List (Sigma fun _ : Bytes => Bytes)} (hlength : found.length ≤ 1)
    (hfilter : headers'.entries.filter (fun header => p header.1) = found) :
    headers.entries.filter (fun header => p header.1) = found := by
  have hfound : (headers.entries.filter fun header => p header.1).Perm found :=
    hfilter ▸ hperm.filter _
  match found, hlength, hfound with
  | [], _, hnone => exact List.perm_nil.1 hnone
  | [_], _, hone => exact List.perm_singleton.1 hone

namespace Transmission

theorem Framed.readBody (h : t.Framed method)
    (hperm : headers.entries.Perm t.response.headers.entries) (rest : Bytes) :
    readBody method t.status headers (t.payload ++ rest) = some (t.body, rest) := by
  unfold CppHttpd.readBody
  cases h with
  | bodiless hbodiless hpayload hbody => rw [if_pos hbodiless, hpayload, hbody, List.nil_append]
  | @length name value hbodied hframing hname hvalue hbody =>
      have hfields := filter_perm hperm (le_refl 1) hframing
      rw [hbodied, hfields]
      simp [hname, hvalue, hbody]
  | chunked hbodied hframing hpayload =>
      have hfields := filter_perm hperm (le_refl 1) hframing
      have hmem : (⟨ascii "Transfer-Encoding", ascii "chunked"⟩ :
          Sigma fun _ : Bytes => Bytes) ∈ t.response.headers.entries :=
        List.mem_of_mem_filter (hframing ▸ List.mem_singleton_self _)
      have hchunked : HttpResponse.isChunked t.response.headers = true := by
        rw [HttpResponse.isChunked, AList.mem_lookup_iff.2 hmem]
        rfl
      have hname : isContentLength (ascii "Transfer-Encoding") = false := by decide
      have hread := decodeChunks_bodyToBytes (r := { t.response with body := t.body })
        hchunked rest
      rw [← hpayload] at hread
      rw [hbodied, hfields]
      simp only [hname, Bool.false_eq_true, if_false, if_true, hread]

theorem Unframed.readBody (h : t.Unframed method)
    (hperm : headers.entries.Perm t.response.headers.entries) :
    readBody method t.status headers t.payload = some (t.body, []) := by
  have hfields : headers.entries.filter (fun header => isFraming header.1) = [] :=
    filter_perm hperm (by simp) h.framing
  rw [CppHttpd.readBody, h.bodied, hfields, h.body]
  rfl

/-! ## Responses -/

theorem readResponse_bytes (it : HttpResponse.Iteration) (h : Serialisable t.response)
    (rest behind : Bytes)
    (hbody : ∀ headers : HeaderMap, headers.entries.Perm t.response.headers.entries →
      readBody method t.status headers (t.payload ++ rest) = some (t.body, behind)) :
    ∃ decoded, readResponse method (t.bytes it ++ rest) = some (decoded, behind) ∧
      t.ReadAs decoded := by
  obtain ⟨hlo, hhi⟩ := h.status
  obtain ⟨code, hcode⟩ := Int.eq_ofNat_of_zero_le (by omega : 0 ≤ t.response.statusCode.value)
  have hstatus : t.status = code := by
    rw [status, hcode]
    rfl
  have hdigits : HttpResponse.intToDecimal t.response.statusCode.value = toDecimal code := by
    rw [HttpResponse.intToDecimal, if_neg (by omega), hcode, Int.natAbs_natCast]
  obtain ⟨headers, hheaders, hperm⟩ := decodeHeaders_order it h (t.payload ++ rest)
  have hbytes : t.bytes it ++ rest = ascii "HTTP/1.1 " ++ toDecimal code ++ [SP] ++
      t.response.statusMessage ++ HttpResponse.crlf ++
      ((it.order t.response.headers).flatMap HttpResponse.headerToBytes ++
        HttpResponse.crlf ++ (t.payload ++ rest)) := by
    rw [bytes, HttpResponse.headersToBytes, hdigits]
    simp only [List.append_assoc]
  have hline := takeLine_append (statusLine_clean h code)
    ((it.order t.response.headers).flatMap HttpResponse.headerToBytes ++ HttpResponse.crlf ++
      (t.payload ++ rest))
  have hcodeLine := decodeStatusLine_line (length_toDecimal (n := code) (by omega) (by omega))
    t.response.statusMessage
  have hread := hbody headers hperm
  rw [hstatus] at hread
  refine ⟨⟨code, t.response.statusMessage, headers, t.body⟩, ?_, ⟨hcode.symm, rfl, hperm, rfl⟩⟩
  rw [hbytes, readResponse, hline]
  simp only [Option.bind_eq_bind, Option.bind_some, hcodeLine, decimalValue_toDecimal,
    Option.map_some, hheaders, hread]

theorem bytes_ne_nil (it : HttpResponse.Iteration) : t.bytes it ≠ [] := by
  simp [bytes, HttpResponse.headersToBytes, HttpResponse.crlf]

end Transmission

end

/--
A client reads what was sent, one response for each request, whatever order the
header maps were written in.
-/
theorem Readable.readResponses (it : HttpResponse.Iteration) {methods : List Method}
    {ts : List Transmission} (h : Readable methods ts) :
    ∃ decoded, readResponses methods (ts.flatMap (Transmission.bytes it)) = some decoded ∧
      List.Forall₂ Transmission.ReadAs ts decoded := by
  induction h with
  | nil methods =>
      refine ⟨[], ?_, .nil⟩
      cases methods <;> rfl
  | @cons method methods t ts hserialisable hframed hrest ih =>
      obtain ⟨decoded, hread, hall⟩ := ih
      obtain ⟨first, hfirst, hmatch⟩ := Transmission.readResponse_bytes it hserialisable
        (ts.flatMap (Transmission.bytes it)) _ fun headers hperm => hframed.readBody hperm _
      refine ⟨first :: decoded, ?_, .cons hmatch hall⟩
      have hne : (t :: ts).flatMap (Transmission.bytes it) ≠ [] := by
        simp [Transmission.bytes_ne_nil]
      rw [CppHttpd.readResponses, if_neg hne, List.flatMap_cons, hfirst]
      simp only [Option.bind_eq_bind, Option.bind_some, hread]
  | @last method t methods hserialisable hunframed =>
      obtain ⟨first, hfirst, hmatch⟩ := Transmission.readResponse_bytes it hserialisable [] []
        fun headers hperm => by
          rw [List.append_nil]
          exact hunframed.readBody hperm
      rw [List.append_nil] at hfirst
      have hempty : CppHttpd.readResponses methods [] = some [] := by cases methods <;> rfl
      refine ⟨[first], ?_, .cons hmatch .nil⟩
      rw [CppHttpd.readResponses, List.flatMap_singleton, if_neg (Transmission.bytes_ne_nil it),
        hfirst]
      simp only [Option.bind_eq_bind, Option.bind_some, hempty]

end CppHttpd
