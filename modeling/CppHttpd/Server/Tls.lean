import CppHttpd.Http.Connection.BrokenResponse

/-!
# Connections over TLS

`handle_tls_connection` has a read loop, a packaging step and a writer of its
own.  `SSL_write` takes an `int`, and a file is read in pieces of 64 KB from
where its descriptor stands.
-/

namespace CppHttpd

open CppHttpd.Foundation

inductive SslError where
  | wantRead
  | wantWrite
  | other
  deriving DecidableEq, Repr

/-- What a call of `SSL_write`, or of `read` on the file of a response, returned. -/
inductive TlsAnswer where
  | sslWrite (result : Except SslError Nat)
  | fileRead (result : Except Errno Nat)

/-- `static_cast<int>` of a size. -/
def castInt (n : Nat) : Int := Int.bmod n (2 ^ 32)

/-- `ssl_write_all`, with the value it returns. -/
def sslWriteAll (data : Bytes) : List TlsAnswer → Bool × Transfer TlsAnswer
  | [] => (data = [], ⟨[], [], data ≠ []⟩)
  | answer :: rest =>
      if data = [] then (true, ⟨[], answer :: rest, false⟩)
      else
        match answer with
        | .sslWrite (.ok n) =>
            -- a positive count is no more than the `int` that was asked for
            if 0 < n ∧ (n : Int) ≤ castInt data.length then
              let (ok, later) := sslWriteAll (data.drop n) rest
              (ok, { later with bytes := data.take n ++ later.bytes })
            else (false, ⟨[], answer :: rest, true⟩)
        | .sslWrite (.error error) =>
            if error = .wantWrite then sslWriteAll data rest else (false, ⟨[], rest, false⟩)
        | .fileRead _ => (false, ⟨[], answer :: rest, true⟩)

def TLS_CHUNK : Nat := 65536

/-- `read` can return `n`, if it was asked for `toRead`; it returns zero at the end only. -/
def OpenFile.CanRead (file : OpenFile) (position toRead n : Nat) : Prop :=
  n ≤ toRead ∧ (file.slice position n).length = n ∧ (n = 0 → file.content.length ≤ position)

instance (file : OpenFile) (position toRead n : Nat) :
    Decidable (file.CanRead position toRead n) :=
  inferInstanceAs (Decidable (_ ∧ _ ∧ _))

/-- How much of a file is read at once. -/
def tlsToRead (remaining : Int) : Nat :=
  if remaining < TLS_CHUNK then remaining.toNat else TLS_CHUNK

/-- The loop of `ssl_write_response`; a turn of it uses up an answer. -/
def sslBodyLoop (files : OpenFiles) (fd : Fd) :
    Nat → Nat → Int → List TlsAnswer → Transfer TlsAnswer
  | 0, _, _, answers => ⟨[], answers, true⟩
  | fuel + 1, position, remaining, answers =>
      if remaining > 0 then
        match answers with
        | .fileRead (.ok n) :: rest =>
            let file := files rest.length fd
            if file.CanRead position (tlsToRead remaining) n then
              if n = 0 then ⟨[], rest, false⟩
              else
                let (ok, written) := sslWriteAll (file.slice position n) rest
                if written.waits ∨ !ok then written
                else
                  let later := sslBodyLoop files fd fuel (position + n) (remaining - n)
                    written.rest
                  { later with bytes := written.bytes ++ later.bytes }
            else ⟨[], answers, true⟩
        | .fileRead (.error _) :: rest => ⟨[], rest, false⟩
        | _ => ⟨[], answers, true⟩
      else ⟨[], answers, false⟩

def sslWriteResponse (files : OpenFiles) (package : ResponsePackage)
    (answers : List TlsAnswer) : Written TlsAnswer :=
  let (_, head) := sslWriteAll package.bytes answers
  let body :=
    if head.waits then ⟨[], head.rest, false⟩
    else
      match package.bodyFd with
      | none => ⟨[], head.rest, false⟩
      | some fd =>
          let position :=
            if package.bodyFdOffset > 0 then package.bodyFdOffset.toNat
            else (files head.rest.length fd).position
          sslBodyLoop files fd (head.rest.length + 1) position package.bodyFdSize head.rest
  { package, head, body }

def sslWantsClose (request : HttpRequest) : Bool :=
  let conn := getHeader request.headers (ascii "connection")
  conn ≠ [] ∧ findSub (ascii "close") (toLower conn) ≠ none

/-- `SSL_read` until there is a request; `interrupted` is `SSL_ERROR_WANT_READ`. -/
def tlsAwaitRequest (p : RequestParser) : List ReadResult → Awaited
  | [] => .blocked p
  | .ok data :: reads =>
      if data = [] then .closed
      else
        let p := p.feed data
        if p.hasRequest then .complete p reads
        else if p.hasError then .refused p.error
        else tlsAwaitRequest p reads
  | .interrupted :: reads => tlsAwaitRequest p reads
  | .again :: _ => .closed
  | .failed :: _ => .closed

variable {W : Type*}

/-- What stands between `get_request` and `ssl_write_response` in the loop. -/
def tlsPackage (h : Handler W) (w : W) (clientIp : Bytes) (request : HttpRequest) :
    ResponsePackage × W :=
  let wantsClose := sslWantsClose request
  let clientRemoteAddr := if clientIp = [] then none else some clientIp
  let (response, w) := h.handle w request (h.accepting w) clientRemoteAddr
  let response := response.setHeader "Connection"
    (if wantsClose then ascii "close" else ascii "keep-alive")
  match response.bodyFd with
  | some fd =>
      ({ bytes := response.headersToBytes h.iteration
         closeAfter := wantsClose
         bodyFd := some fd
         bodyFdOffset := response.bodyFdOffset
         bodyFdSize := response.bodyFdSize }, w)
  | none => ({ bytes := response.toBytes h.iteration, closeAfter := wantsClose }, w)

def tlsLoop (h : Handler W) (files : OpenFiles) (clientIp : Bytes) :
    Nat → W → RequestParser → List ReadResult → List TlsAnswer → ConnectionThread W TlsAnswer
  | 0, w, p, _, answers => ⟨[], w, .reading p, answers⟩
  | fuel + 1, w, p, reads, answers =>
      let awaited :=
        if p.hasRequest then .complete p reads
        else if p.hasError then .refused p.error
        else tlsAwaitRequest p reads
      match awaited with
      | .closed => ⟨[], w, .returned, answers⟩
      | .blocked p => ⟨[], w, .reading p, answers⟩
      | .refused error =>
          let package : ResponsePackage :=
            { bytes := errorResponse h.iteration error, closeAfter := true }
          let written := sslWriteResponse files package answers
          ⟨[written], w, if written.waits then .writing else .returned, written.rest⟩
      | .complete p reads =>
          let (request, p) := p.getRequest
          let (package, w) := tlsPackage h w clientIp request
          let written := sslWriteResponse files package answers
          if written.waits then ⟨[written], w, .writing, written.rest⟩
          else if package.closeAfter then ⟨[written], w, .returned, written.rest⟩
          else
            let later := tlsLoop h files clientIp fuel w p reads written.rest
            { later with written := written :: later.written }

/-- `handle_tls_connection`, after the handshake. -/
def tlsThread (h : Handler W) (files : OpenFiles) (w : W) (clientIp : Bytes)
    (reads : List ReadResult) (answers : List TlsAnswer) : ConnectionThread W TlsAnswer :=
  tlsLoop h files clientIp (reads.length + (reads.map ReadResult.size).sum + 1) w {} reads
    answers

/-! ## The loop is that of `handle_connection` -/

theorem sslWantsClose_eq (request : HttpRequest) : sslWantsClose request = wantsClose request := by
  unfold sslWantsClose wantsClose
  by_cases hconn : getHeader request.headers (ascii "connection") = []
  · simp [hconn]
  · cases hfind : findSub (ascii "close")
      (toLower (getHeader request.headers (ascii "connection"))) <;> simp [hconn, hfind]

theorem tlsAwaitRequest_eq (p : RequestParser) (reads : List ReadResult) :
    tlsAwaitRequest p reads = awaitRequest p reads := by
  induction reads generalizing p with
  | nil => rfl
  | cons read reads ih =>
      cases read with
      | ok data => simp only [tlsAwaitRequest, awaitRequest, ih]
      | interrupted => exact ih p
      | again => rfl
      | failed => rfl

theorem tlsPackage_eq (h : Handler W) (w : W) (clientIp : Bytes) (request : HttpRequest) :
    tlsPackage h w clientIp request = processRequest h w clientIp request := by
  unfold tlsPackage processRequest packageResponse
  rw [sslWantsClose_eq]
  dsimp only
  split <;> simp [*]

theorem tlsLoop_eq (h : Handler W) (files : OpenFiles) (clientIp : Bytes) (fuel : Nat) (w : W)
    (p : RequestParser) (reads : List ReadResult) (answers : List TlsAnswer) :
    tlsLoop h files clientIp fuel w p reads answers =
      threadLoop h (sslWriteResponse files) clientIp fuel w p reads answers := by
  induction fuel generalizing w p reads answers with
  | zero => rfl
  | succ fuel ih =>
      rw [tlsLoop]
      simp only [tlsAwaitRequest_eq, tlsPackage_eq, ih]
      rfl

end CppHttpd
