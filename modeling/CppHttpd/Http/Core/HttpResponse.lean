import CppHttpd.Http.Core.HttpRequest

/-!
# Responses

`StatusCode` is an enumeration over `int` that also receives the numbers CGI
scripts write, so any integer is a value of it.  A response body is either a
string or a range of an open file.
-/

namespace CppHttpd

open CppHttpd.Foundation

structure StatusCode where
  value : Int
  deriving DecidableEq, Repr

namespace StatusCode

def Ok : StatusCode := ⟨200⟩
def NoContent : StatusCode := ⟨204⟩
def PartialContent : StatusCode := ⟨206⟩
def NotModified : StatusCode := ⟨304⟩
def BadRequest : StatusCode := ⟨400⟩
def InvalidCredentials : StatusCode := ⟨401⟩
def Forbidden : StatusCode := ⟨403⟩
def NotFound : StatusCode := ⟨404⟩
def MethodNotAllowed : StatusCode := ⟨405⟩
def NotAcceptable : StatusCode := ⟨406⟩
def PayloadTooLarge : StatusCode := ⟨413⟩
def RangeNotSatisfiable : StatusCode := ⟨416⟩
def InternalServerError : StatusCode := ⟨500⟩
def BadGateway : StatusCode := ⟨502⟩
def ServiceUnavailable : StatusCode := ⟨503⟩
def GatewayTimeout : StatusCode := ⟨504⟩

/-- `to_string(StatusCode)`. -/
def text (s : StatusCode) : Bytes :=
  match s.value with
  | 200 => ascii "OK"
  | 204 => ascii "No Content"
  | 206 => ascii "Partial Content"
  | 304 => ascii "Not Modified"
  | 400 => ascii "Bad Request"
  | 401 => ascii "Unauthorized"
  | 403 => ascii "Forbidden"
  | 404 => ascii "Not Found"
  | 405 => ascii "Method Not Allowed"
  | 406 => ascii "Not Acceptable"
  | 413 => ascii "Payload Too Large"
  | 416 => ascii "Range Not Satisfiable"
  | 500 => ascii "Internal Server Error"
  | 502 => ascii "Bad Gateway"
  | 503 => ascii "Service Unavailable"
  | 504 => ascii "Gateway Timeout"
  | _ => ascii "Unknown Status Code"

end StatusCode

/-- A file descriptor; the `-1` of the source is `none`. -/
abbrev Fd := Nat

structure HttpResponse where
  statusCode : StatusCode := .Ok
  statusMessage : Bytes := StatusCode.Ok.text
  headers : HeaderMap := ∅
  body : Bytes := []
  bodyFd : Option Fd := none
  bodyFdOffset : Int := 0
  bodyFdSize : Int := 0

namespace HttpResponse

def ofStatus (code : StatusCode) : HttpResponse :=
  { statusCode := code, statusMessage := code.text }

/-- `headers[name] = value`. -/
def setHeader (r : HttpResponse) (name : String) (value : Bytes) : HttpResponse :=
  { r with headers := r.headers.insert (ascii name) value }

/-! ## Serialisation -/

/-- The order in which a `std::unordered_map` happens to be iterated. -/
structure Iteration where
  order : HeaderMap → List (Sigma fun _ : Bytes => Bytes)
  perm : ∀ m, (order m).Perm m.entries

def isChunked (headers : HeaderMap) : Bool :=
  headers.lookup (ascii "Transfer-Encoding") = some (ascii "chunked")

/-- `std::to_string(int)`. -/
def intToDecimal (n : Int) : Bytes :=
  if n < 0 then ascii "-" ++ toDecimal n.natAbs else toDecimal n.natAbs

/-- `%zx`. -/
def toHex (n : Nat) : Bytes := (Nat.toDigits 16 n).map byteOf

def crlf : Bytes := [CR, LF]

def headerToBytes (header : Sigma fun _ : Bytes => Bytes) : Bytes :=
  header.1 ++ ascii ": " ++ header.2 ++ crlf

def headersToBytes (it : Iteration) (r : HttpResponse) : Bytes :=
  ascii "HTTP/1.1 " ++ intToDecimal r.statusCode.value ++ [SP] ++ r.statusMessage ++
    crlf ++ (it.order r.headers).flatMap headerToBytes ++ crlf

/-- What `to_bytes()` sends behind the header section. -/
def bodyToBytes (r : HttpResponse) : Bytes :=
  if isChunked r.headers then
    (if r.body ≠ [] then toHex r.body.length ++ crlf ++ r.body ++ crlf else []) ++
      ascii "0\r\n\r\n"
  else r.body

def toBytes (it : Iteration) (r : HttpResponse) : Bytes :=
  r.headersToBytes it ++ r.bodyToBytes

def Iteration.inOrder : Iteration := ⟨AList.entries, fun _ => .refl _⟩

end HttpResponse

end CppHttpd
