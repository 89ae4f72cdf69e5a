import CppHttpd.Http.Core.RequestHandlerUtils

/-!
# The request parser

`RequestParser` is fed with whatever a read delivered.  It keeps the bytes it
has not consumed in `buffer` and advances through the request line, the header
lines and the body of one request at a time.
-/

namespace CppHttpd

open CppHttpd.Foundation

inductive ParseError where
  | ok
  | incomplete
  | badRequest
  | methodNotAllowed
  | invalidRequestLine
  | invalidHeader
  | payloadTooLarge
  deriving DecidableEq, Repr

inductive ParserState where
  | requestLine
  | headers
  | body
  | done
  | error
  deriving DecidableEq, Repr

structure RequestParser where
  buffer : Bytes := []
  state : ParserState := .requestLine
  request : HttpRequest := {}
  error : ParseError := .ok
  errorMessage : String := ""
  bodyBytesRemaining : Nat := 0

def MAX_REQUEST_LINE : Nat := 8192
def MAX_HEADER_LINE : Nat := 8192
def MAX_BODY_SIZE : Nat := 10 * 1024 * 1024

/-! ## Lines -/

def findLineEnd (buffer : Bytes) (start : Nat) : Option Nat :=
  match find buffer LF start with
  | none => none
  | some newlinePos =>
      if newlinePos > 0 ∧ buffer[newlinePos - 1]? = some CR then
        some (newlinePos - 1)
      else some newlinePos

def lineTerminatorLen (buffer : Bytes) (terminatorStart : Nat) : Nat :=
  if terminatorStart ≥ buffer.length then 0
  else if buffer[terminatorStart]? = some CR ∧
      buffer[terminatorStart + 1]? = some LF then 2
  else 1

/-- The first line of the buffer, its terminator dropped, and what follows. -/
def cutLine (buffer : Bytes) : Option (Bytes × Bytes) :=
  match findLineEnd buffer 0 with
  | none => none
  | some lineEnd =>
      some (substr buffer 0 lineEnd (zero_le_length _),
        buffer.drop (lineEnd + lineTerminatorLen buffer lineEnd))

namespace RequestParser

def fail (p : RequestParser) (error : ParseError) (message : String) :
    Bool × RequestParser :=
  (false, { p with state := .error, error := error, errorMessage := message })

/-! ## The request line -/

def acceptMethod (p : RequestParser) (method : Method) : Bool × RequestParser :=
  (true, { p with
    state := .headers
    request := { p.request with method := method, methodStr := method.toBytes } })

def parseRequestLine (p : RequestParser) (line : Bytes) : Bool × RequestParser :=
  match h1 : find line SP 0 with
  | none => p.fail .invalidRequestLine "Missing space in request line"
  | some s1 =>
      match h2 : find line SP (s1 + 1) with
      | none => p.fail .invalidRequestLine "Missing HTTP version in request line"
      | some s2 =>
          if find line SP (s2 + 1) ≠ none then
            p.fail .invalidRequestLine "Invalid request line format"
          else
            let methodStr := substr line 0 s1 (zero_le_length _)
            let uri := substr line (s1 + 1) (s2 - (s1 + 1)) (find_lt h1)
            let p := { p with request := { p.request with uri := uri } }
            let version := trim (substrFrom line (s2 + 1) (find_lt h2))
            if version = [] ∨ methodStr = [] ∨ p.request.uri = [] then
              p.fail .invalidRequestLine "Empty method, URI, or version"
            else if methodStr = ascii "GET" then p.acceptMethod .GET
            else if methodStr = ascii "POST" then p.acceptMethod .POST
            else if methodStr = ascii "HEAD" then p.acceptMethod .HEAD
            else if methodStr = ascii "OPTIONS" then p.acceptMethod .OPTIONS
            else p.fail .methodNotAllowed "Method not allowed"

def processRequestLine (p : RequestParser) : Bool × RequestParser :=
  match cutLine p.buffer with
  | none =>
      if p.buffer.length > MAX_REQUEST_LINE then
        p.fail .badRequest "Request line too long"
      else (false, p)
  | some (line, rest) => parseRequestLine { p with buffer := rest } line

/-! ## Header lines -/

/-- The end of the header section, its declared length being `cl`. -/
def acceptLength (p : RequestParser) (cl : Nat) : Bool × RequestParser :=
  if cl > MAX_BODY_SIZE then
    p.fail .payloadTooLarge "Request body exceeds maximum allowed size"
  else
    (true, { p with
      request := { p.request with
        contentLength := UInt16.ofNat (if cl > 65535 then 65535 else cl) }
      bodyBytesRemaining := cl
      -- only POST carries a body
      state := if p.request.method = .POST ∧ cl > 0 then .body else .done })

def endHeaders (p : RequestParser) : Bool × RequestParser :=
  match p.request.headers.lookup (ascii "content-length") with
  | none => p.acceptLength 0
  | some value =>
      match stoll value with
      | .error _ => p.fail .badRequest "Invalid Content-Length"
      | .ok v =>
          if v < 0 then p.fail .badRequest "Invalid Content-Length"
          else p.acceptLength v.toNat

def storeHeader (p : RequestParser) (line : Bytes) : Bool × RequestParser :=
  let (name, value) := parseHeaderLine line true
  if name = [] then p.fail .invalidHeader "Invalid header line"
  else
    (true, { p with request := { p.request with
      headers := p.request.headers.insert name value } })

def processHeaders (p : RequestParser) : Bool × RequestParser :=
  match cutLine p.buffer with
  | none =>
      if p.buffer.length > MAX_HEADER_LINE then
        p.fail .invalidHeader "Header line too long"
      else (false, p)
  | some (line, rest) =>
      if line = [] then endHeaders { p with buffer := rest }
      else storeHeader { p with buffer := rest } line

/-! ## The body -/

def processBody (p : RequestParser) : Bool × RequestParser :=
  if p.bodyBytesRemaining = 0 then (true, { p with state := .done })
  else if p.buffer.length < p.bodyBytesRemaining then (false, p)
  else
    (true, { p with
      request := { p.request with
        buffer := substr p.buffer 0 p.bodyBytesRemaining (zero_le_length _) }
      buffer := p.buffer.drop p.bodyBytesRemaining
      bodyBytesRemaining := 0
      state := .done })

/-! ## Driving -/

def hasRequest (p : RequestParser) : Bool := p.state = .done

def hasError (p : RequestParser) : Bool := p.state = .error

def needMore (p : RequestParser) : Bool := !p.hasRequest && !p.hasError

/-- One turn of the loop of `advance()`: whether it made progress. -/
def turn (p : RequestParser) : Bool × RequestParser :=
  match p.state with
  | .requestLine => p.processRequestLine
  | .headers => p.processHeaders
  | .body => p.processBody
  | .done => (false, p)
  | .error => (false, p)

def advanceLoop : Nat → RequestParser → RequestParser
  | 0, p => p
  | fuel + 1, p =>
      if p.state = .done ∨ p.state = .error then p
      else
        match p.turn with
        | (true, p') => advanceLoop fuel p'
        | (false, p') => p'

/-- Every turn that makes progress consumes a byte or ends the loop. -/
def advance (p : RequestParser) : RequestParser :=
  advanceLoop (p.buffer.length + 1) p

def feed (p : RequestParser) (data : Bytes) : RequestParser :=
  if p.state = .done ∨ p.state = .error then p
  else advance { p with buffer := p.buffer ++ data }

/-- All members but the buffer as they are in a new parser. -/
def restart (p : RequestParser) : RequestParser := { buffer := p.buffer }

def getRequest (p : RequestParser) : HttpRequest × RequestParser :=
  (p.request, p.restart.advance)

/-- `reset()`: the unconsumed bytes are dropped as well. -/
def reset (_p : RequestParser) : RequestParser := {}

end RequestParser

end CppHttpd
