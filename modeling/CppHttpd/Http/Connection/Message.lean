import CppHttpd.Http.Connection.ConnectionManager

/-!
# Messages on the wire

A response is sent as a header section with a body behind it, which comes from a
string or from a file.  On a connection that is kept open a client has to learn
from the header section where the body ends.
-/

namespace CppHttpd

open CppHttpd.Foundation

structure Message where
  status : StatusCode
  statusMessage : Bytes
  headers : List (Sigma fun _ : Bytes => Bytes)
  body : Bytes
  /-- The number of bytes sent from a file behind that. -/
  fileSize : Int

namespace Message

def head (m : Message) : Bytes :=
  ascii "HTTP/1.1 " ++ HttpResponse.intToDecimal m.status.value ++ [SP] ++ m.statusMessage ++
    HttpResponse.crlf ++ m.headers.flatMap HttpResponse.headerToBytes ++ HttpResponse.crlf

def fields (m : Message) (p : Bytes → Bool) : List (Sigma fun _ : Bytes => Bytes) :=
  m.headers.filter fun header => p header.1

end Message

/-! ## Self-delimiting messages -/

/-- The names of header fields do not depend on upper and lower case. -/
def isContentLength (name : Bytes) : Bool := toLower name = ascii "content-length"

def isFraming (name : Bytes) : Bool :=
  isContentLength name || toLower name = ascii "transfer-encoding"

inductive ChunkEncoded : Bytes → Prop
  | last : ChunkEncoded (ascii "0\r\n\r\n")
  | chunk {data rest : Bytes} (hdata : data ≠ []) (hrest : ChunkEncoded rest) :
      ChunkEncoded (HttpResponse.toHex data.length ++ HttpResponse.crlf ++ data ++
        HttpResponse.crlf ++ rest)

inductive SelfDelimiting (method : Method) (m : Message) : Prop
  | bodiless (hstatus : m.status = .NoContent ∨ m.status = .NotModified ∨ method = .HEAD)
      (hbody : m.body = []) (hfile : m.fileSize = 0)
  | chunked
      (hfields : m.fields isFraming = [⟨ascii "Transfer-Encoding", ascii "chunked"⟩])
      (hbody : ChunkEncoded m.body) (hfile : m.fileSize = 0)
  | length {name value : Bytes} {n : Nat} (hfields : m.fields isContentLength = [⟨name, value⟩])
      (hvalue : decimalValue value = some n) (hsize : m.body.length + m.fileSize = n)

/-! ## The message of a response -/

def connectionValue (request : HttpRequest) : Bytes :=
  if wantsClose request then ascii "close" else ascii "keep-alive"

/-- What `process_request` arranges to send. -/
def sentMessage (it : HttpResponse.Iteration) (request : HttpRequest)
    (response : HttpResponse) : Message where
  status := response.statusCode
  statusMessage := response.statusMessage
  headers := it.order (response.setHeader "Connection" (connectionValue request)).headers
  body := if response.bodyFd.isSome then []
    else (response.setHeader "Connection" (connectionValue request)).bodyToBytes
  fileSize := if response.bodyFd.isSome then response.bodyFdSize else 0

/-- A client that is told to keep the connection can tell where the response ends. -/
structure Delimited (it : HttpResponse.Iteration) (request : HttpRequest)
    (response : HttpResponse) : Prop where
  bytes : (packageResponse it request response).bytes =
    (sentMessage it request response).head ++ (sentMessage it request response).body
  file : (packageResponse it request response).bodyFdSize =
    (sentMessage it request response).fileSize
  selfDelimiting :
    ⟨ascii "Connection", ascii "keep-alive"⟩ ∈ (sentMessage it request response).headers →
      SelfDelimiting request.method (sentMessage it request response)

section

variable {it : HttpResponse.Iteration} {request : HttpRequest} {response : HttpResponse}

theorem packageResponse_bytes :
    (packageResponse it request response).bytes =
      (sentMessage it request response).head ++ (sentMessage it request response).body := by
  unfold packageResponse
  cases hfd : response.bodyFd <;>
    simp [HttpResponse.setHeader, hfd, sentMessage, Message.head, HttpResponse.toBytes,
      HttpResponse.headersToBytes, connectionValue]

theorem packageResponse_bodyFdSize :
    (packageResponse it request response).bodyFdSize =
      (sentMessage it request response).fileSize := by
  unfold packageResponse
  cases hfd : response.bodyFd <;> simp [HttpResponse.setHeader, hfd, sentMessage]

theorem mem_order {m : HeaderMap} {name value : Bytes} :
    ⟨name, value⟩ ∈ it.order m ↔ m.lookup name = some value := by
  rw [(it.perm m).mem_iff]
  exact AList.mem_lookup_iff.symm

theorem keepAlive_iff :
    ⟨ascii "Connection", ascii "keep-alive"⟩ ∈ (sentMessage it request response).headers ↔
      wantsClose request = false := by
  have hne : ascii "close" ≠ ascii "keep-alive" := by decide
  unfold sentMessage
  rw [mem_order]
  cases hclose : wantsClose request <;>
    simp [HttpResponse.setHeader, connectionValue, hclose, hne]

theorem delimited_iff :
    Delimited it request response ↔
      wantsClose request = true ∨
        SelfDelimiting request.method (sentMessage it request response) := by
  constructor
  · rintro ⟨-, -, hself⟩
    rw [keepAlive_iff] at hself
    cases hclose : wantsClose request with
    | true => exact .inl rfl
    | false => exact .inr (hself hclose)
  · rintro hself
    refine ⟨packageResponse_bytes, packageResponse_bodyFdSize, fun hkeep => ?_⟩
    rw [keepAlive_iff] at hkeep
    simpa [hkeep] using hself

theorem filter_order_singleton_iff {m : HeaderMap} (p : Bytes → Bool) {name value : Bytes} :
    (it.order m).filter (fun header => p header.1) = [⟨name, value⟩] ↔
      p name = true ∧ m.lookup name = some value ∧ ∀ key ∈ m, p key = true → key = name := by
  constructor
  · intro hfilter
    have hmem : ⟨name, value⟩ ∈ (it.order m).filter fun header => p header.1 := by
      rw [hfilter]
      exact List.mem_singleton_self _
    obtain ⟨horder, hp⟩ := List.mem_filter.1 hmem
    refine ⟨hp, mem_order.1 horder, fun key hkey hpkey => ?_⟩
    obtain ⟨value', hvalue'⟩ := Option.isSome_iff_exists.1 (AList.lookup_isSome.2 hkey)
    have hkeymem : ⟨key, value'⟩ ∈ (it.order m).filter fun header => p header.1 :=
      List.mem_filter.2 ⟨mem_order.2 hvalue', hpkey⟩
    rw [hfilter, List.mem_singleton] at hkeymem
    cases hkeymem
    rfl
  · rintro ⟨hp, hlookup, honly⟩
    have hnodup : ((it.order m).filter fun header => p header.1).Nodup :=
      (((it.perm m).nodup_iff).2 m.nodupKeys.nodup).filter _
    have hall : ∀ header ∈ (it.order m).filter (fun header => p header.1),
        header = ⟨name, value⟩ := by
      rintro ⟨key, value'⟩ hmem
      obtain ⟨horder, hpkey⟩ := List.mem_filter.1 hmem
      have hlookup' := mem_order.1 horder
      obtain rfl := honly key (AList.lookup_isSome.1 (by simp [hlookup'])) hpkey
      rw [hlookup] at hlookup'
      cases hlookup'
      rfl
    have hmem : ⟨name, value⟩ ∈ (it.order m).filter fun header => p header.1 :=
      List.mem_filter.2 ⟨mem_order.2 hlookup, hp⟩
    have hreplicate := List.eq_replicate_of_mem hall
    have hle : ((it.order m).filter fun header => p header.1).length ≤ 1 := by
      rw [hreplicate] at hnodup
      exact List.nodup_replicate.1 hnodup
    have hpos := List.length_pos_of_mem hmem
    rw [hreplicate, show ((it.order m).filter fun header => p header.1).length = 1 by omega]
    rfl

/-- The `Connection` header is not among the fields that count. -/
theorem sent_fields_iff {p : Bytes → Bool} (hconnection : p (ascii "Connection") = false)
    {name value : Bytes} :
    (sentMessage it request response).fields p = [⟨name, value⟩] ↔
      p name = true ∧ response.headers.lookup name = some value ∧
        ∀ key ∈ response.headers, p key = true → key = name := by
  have hne : ∀ key, p key = true → key ≠ ascii "Connection" := by
    rintro key hkey rfl
    rw [hconnection] at hkey
    cases hkey
  simp only [Message.fields, sentMessage, filter_order_singleton_iff, HttpResponse.setHeader,
    AList.mem_insert]
  constructor
  · rintro ⟨hp, hlookup, honly⟩
    rw [AList.lookup_insert_ne (hne name hp)] at hlookup
    exact ⟨hp, hlookup, fun key hmem => honly key (.inr hmem)⟩
  · rintro ⟨hp, hlookup, honly⟩
    rw [AList.lookup_insert_ne (hne name hp)]
    refine ⟨hp, hlookup, ?_⟩
    rintro key (rfl | hmem) hkey
    · exact absurd rfl (hne _ hkey)
    · exact honly key hmem hkey

theorem isChunked_setHeader {m : HeaderMap} {value : Bytes} :
    HttpResponse.isChunked (m.insert (ascii "Connection") value) = HttpResponse.isChunked m := by
  unfold HttpResponse.isChunked
  rw [AList.lookup_insert_ne (by decide)]

/-! ## Responses that are not chunked -/

/-- The only framing header is `Content-Length`, if there is one at all. -/
def OnlyLength (m : HeaderMap) : Prop :=
  ∀ name ∈ m, isFraming name = true → name = ascii "Content-Length"

theorem onlyLength_empty : OnlyLength ∅ := by
  intro name hmem
  simp at hmem

theorem OnlyLength.setHeader (h : OnlyLength response.headers) {name : String} {value : Bytes}
    (hname : isFraming (ascii name) = true → ascii name = ascii "Content-Length") :
    OnlyLength (response.setHeader name value).headers := by
  intro key hmem hkey
  rcases (AList.mem_insert _).1 hmem with rfl | hmem
  · exact hname hkey
  · exact h key hmem hkey

theorem OnlyLength.not_mem (h : OnlyLength response.headers) :
    ascii "Transfer-Encoding" ∉ response.headers := by
  intro hmem
  have heq := h _ hmem (by decide)
  revert heq
  decide

theorem OnlyLength.sentMessage_body (h : OnlyLength response.headers) :
    (sentMessage it request response).body =
      if response.bodyFd.isSome then [] else response.body := by
  have hchunked : HttpResponse.isChunked
      (response.headers.insert (ascii "Connection") (connectionValue request)) = false := by
    rw [isChunked_setHeader, HttpResponse.isChunked, AList.lookup_eq_none.2 h.not_mem]
    rfl
  simp [sentMessage, HttpResponse.setHeader, HttpResponse.bodyToBytes, hchunked]

def bodySize (response : HttpResponse) : Int :=
  if response.bodyFd.isSome then response.bodyFdSize else response.body.length

theorem OnlyLength.sent_size (h : OnlyLength response.headers) :
    (sentMessage it request response).body.length + (sentMessage it request response).fileSize =
      bodySize response := by
  rw [h.sentMessage_body]
  cases hfd : response.bodyFd <;> simp [sentMessage, bodySize, hfd]

theorem OnlyLength.bodiless_iff (h : OnlyLength response.headers) :
    ((sentMessage it request response).body = [] ∧
      (sentMessage it request response).fileSize = 0) ↔ bodySize response = 0 := by
  rw [h.sentMessage_body]
  cases hfd : response.bodyFd <;> simp [sentMessage, bodySize, hfd]

theorem OnlyLength.selfDelimiting_iff (h : OnlyLength response.headers) :
    SelfDelimiting request.method (sentMessage it request response) ↔
      ((response.statusCode = .NoContent ∨ response.statusCode = .NotModified ∨
          request.method = .HEAD) ∧ bodySize response = 0) ∨
        ∃ value n, response.headers.lookup (ascii "Content-Length") = some value ∧
          decimalValue value = some n ∧ bodySize response = n := by
  have hspelled : ∀ name ∈ response.headers, isContentLength name = true →
      name = ascii "Content-Length" := fun name hmem hname =>
    h name hmem (by simp [isFraming, hname])
  constructor
  · intro hself
    cases hself with
    | bodiless hstatus hbody hfile => exact .inl ⟨hstatus, h.bodiless_iff.1 ⟨hbody, hfile⟩⟩
    | chunked hfields hbody hfile =>
        obtain ⟨-, hlookup, -⟩ := (sent_fields_iff (by decide)).1 hfields
        exact absurd (AList.lookup_isSome.1 (by simp [hlookup])) h.not_mem
    | length hfields hvalue hsize =>
        obtain ⟨hname, hlookup, -⟩ := (sent_fields_iff (by decide)).1 hfields
        obtain rfl := hspelled _ (AList.lookup_isSome.1 (by simp [hlookup])) hname
        exact .inr ⟨_, _, hlookup, hvalue, h.sent_size.symm.trans hsize⟩
  · rintro (⟨hstatus, hsize⟩ | ⟨value, n, hlookup, hvalue, hsize⟩)
    · have hsent : (sentMessage it request response).body = [] ∧
          (sentMessage it request response).fileSize = 0 := h.bodiless_iff.2 hsize
      exact .bodiless hstatus hsent.1 hsent.2
    · exact .length ((sent_fields_iff (by decide)).2 ⟨by decide, hlookup, hspelled⟩) hvalue
        (h.sent_size.trans hsize)

end

end CppHttpd
