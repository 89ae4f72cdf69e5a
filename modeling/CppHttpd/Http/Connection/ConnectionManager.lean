import CppHttpd.Http.Core.HttpResponse
import CppHttpd.Http.Core.RequestParser
import Mathlib.Algebra.GroupWithZero.Nat

/-!
# Connections in thread-pool mode

`handle_connection` alternates between reading until the parser has a complete
request and answering it.  The handler, and the rest of the server behind it,
is a parameter: it may do anything to a world `W` of its own.
-/

namespace CppHttpd

open CppHttpd.Foundation

/-- What a connection loop needs of the server around it. -/
structure Handler (W : Type*) where
  handle : W → HttpRequest → Bool → Option Bytes → HttpResponse × W
  /-- `accepting_connections.load()`. -/
  accepting : W → Bool
  iteration : HttpResponse.Iteration

def wantsClose (request : HttpRequest) : Bool :=
  let conn := getHeader request.headers (ascii "connection")
  if conn = [] then false
  else (findSub (ascii "close") (toLower conn)).isSome

structure ResponsePackage where
  bytes : Bytes := []
  closeAfter : Bool := false
  bodyFd : Option Fd := none
  bodyFdOffset : Int := 0
  bodyFdSize : Int := 0

/-- The part of `process_request` behind the call of the handler. -/
def packageResponse (it : HttpResponse.Iteration) (request : HttpRequest)
    (response : HttpResponse) : ResponsePackage :=
  let clientWantsClose := wantsClose request
  let response := response.setHeader "Connection"
    (if clientWantsClose then ascii "close" else ascii "keep-alive")
  match response.bodyFd with
  | some fd =>
      { bytes := response.headersToBytes it
        closeAfter := clientWantsClose
        bodyFd := some fd
        bodyFdOffset := response.bodyFdOffset
        bodyFdSize := response.bodyFdSize }
  | none =>
      { bytes := response.toBytes it, closeAfter := clientWantsClose }

variable {W : Type*}

def processRequest (h : Handler W) (w : W) (clientIp : Bytes) (request : HttpRequest) :
    ResponsePackage × W :=
  let clientRemoteAddr := if clientIp = [] then none else some clientIp
  let (response, w) := h.handle w request (h.accepting w) clientRemoteAddr
  (packageResponse h.iteration request response, w)

@[simp] theorem packageResponse_closeAfter (it : HttpResponse.Iteration)
    (request : HttpRequest) (response : HttpResponse) :
    (packageResponse it request response).closeAfter = wantsClose request := by
  simp only [packageResponse]
  split <;> rfl

@[simp] theorem processRequest_closeAfter (h : Handler W) (w : W) (clientIp : Bytes)
    (request : HttpRequest) :
    (processRequest h w clientIp request).1.closeAfter = wantsClose request :=
  packageResponse_closeAfter _ _ _

def errorResponse (it : HttpResponse.Iteration) (error : ParseError) : Bytes :=
  let code := if error = .payloadTooLarge then StatusCode.PayloadTooLarge
    else StatusCode.BadRequest
  ((HttpResponse.ofStatus code).setHeader "Connection" (ascii "close")).toBytes it

/-! ## The connection loop -/

/-- What `read` returned; `ok []` is the end of the stream. -/
inductive ReadResult where
  | ok (data : Bytes)
  | again
  | interrupted
  | failed
  deriving DecidableEq, Repr

/-- What a connection loop does that can be seen from outside. -/
inductive Action where
  /-- `process_request` was called and its package handed to the writer. -/
  | answered (request : HttpRequest) (package : ResponsePackage)
  | refused (bytes : Bytes)

inductive Awaited where
  | complete (parser : RequestParser) (reads : List ReadResult)
  | refused (error : ParseError)
  | closed
  /-- Every read result is used up: the thread is blocked in `read`. -/
  | blocked (parser : RequestParser)

def awaitRequest (p : RequestParser) : List ReadResult → Awaited
  | [] => .blocked p
  | .interrupted :: reads => awaitRequest p reads
  | .again :: _ => .closed
  | .failed :: _ => .closed
  | .ok data :: reads =>
      if data = [] then .closed
      else
        let p := p.feed data
        if p.hasRequest then .complete p reads
        else if p.hasError then .refused p.error
        else awaitRequest p reads

/-- A connection thread: what it did, and the parser it is blocked in `read` with. -/
structure Served (W : Type*) where
  actions : List Action
  world : W
  blocked : Option RequestParser

def connectionLoop (h : Handler W) (clientIp : Bytes) :
    Nat → W → RequestParser → List ReadResult → Served W
  | 0, w, p, _ => ⟨[], w, some p⟩
  | fuel + 1, w, p, reads =>
      let awaited :=
        if p.hasRequest then .complete p reads
        else if p.hasError then .refused p.error
        else awaitRequest p reads
      match awaited with
      | .closed => ⟨[], w, none⟩
      | .blocked p => ⟨[], w, some p⟩
      | .refused error => ⟨[.refused (errorResponse h.iteration error)], w, none⟩
      | .complete p reads =>
          let (request, p) := p.getRequest
          let (package, w) := processRequest h w clientIp request
          if package.closeAfter then ⟨[.answered request package], w, none⟩
          else
            let rest := connectionLoop h clientIp fuel w p reads
            { rest with actions := .answered request package :: rest.actions }

def ReadResult.size : ReadResult → Nat
  | .ok data => data.length
  | _ => 0

/-- Every turn of the loop but the last one uses up a read or a byte. -/
def handleConnection (h : Handler W) (w : W) (clientIp : Bytes)
    (reads : List ReadResult) : Served W :=
  connectionLoop h clientIp (reads.length + (reads.map ReadResult.size).sum + 1) w {} reads

end CppHttpd
