import CppHttpd.Config.Config
import CppHttpd.Os.Environment

/-!
# CGI programs

A program is run with an environment made from the request, and its output is
taken apart into headers and a body.  The body is always sent in chunks.
-/

namespace CppHttpd

open CppHttpd.Foundation

def buildCgiEnvironment (config : Config) (request : HttpRequest) (vhost : Option VirtualHost)
    (clientRemoteAddr : Option Bytes) : HeaderMap :=
  let set (name : String) (value : Bytes) (env : HeaderMap) := env.insert (ascii name) value
  let env := (∅ : HeaderMap)
    |> set "REQUEST_METHOD" request.methodStr
    |> set "QUERY_STRING" (splitUri request.uri).2
    |> set "SERVER_PROTOCOL" (ascii "HTTP/1.1")
    |> set "SERVER_PORT" (HttpResponse.intToDecimal config.listenPort)
  let env := match vhost with
    | none => env
    | some vhost => set "SERVER_NAME" vhost.serverName env
  let env :=
    if request.methodStr = ascii "POST" then
      let env := set "CONTENT_LENGTH" (toDecimal request.buffer.length) env
      let contentType := getHeader request.headers (ascii "content-type")
      if contentType ≠ [] then set "CONTENT_TYPE" contentType env else env
    else env |> set "CONTENT_LENGTH" (ascii "0") |> set "CONTENT_TYPE" []
  let addr := clientRemoteAddr.getD []
  env |> set "REMOTE_ADDR" addr |> set "REMOTE_HOST" addr

/-! ## The output -/

/-- `status >> code`, and then the rest of the line; a number that fails ends both. -/
def readStatus (uninitialised : Int) (text : Bytes) : Int × Bytes :=
  let text := text.dropWhile isSpace
  let (negative, text') := match text with
    | 45 :: rest => (true, rest)
    | 43 :: rest => (false, rest)
    | rest => (false, rest)
  let digits := text'.takeWhile isDigit
  let n : Int := if negative then -digitsValue digits else digitsValue digits
  if text = [] then (uninitialised, [])
  else if digits = [] then (0, [])
  else if n < -2 ^ 31 then (-2 ^ 31, [])
  else if 2 ^ 31 ≤ n then (2 ^ 31 - 1, [])
  else (n, text'.dropWhile isDigit)

def isReservedHeader (name : Bytes) : Bool :=
  name = ascii "Connection" || name = ascii "Transfer-Encoding" ||
    name = ascii "Content-Length"

/-- A header line of the output, its line end cut off. -/
def cgiHeader (uninitialised : Int) (response : HttpResponse) (line : Bytes) : HttpResponse :=
  if line = [] then response
  else if h : compareEq line 0 8 (ascii "Status: ") (zero_le_length _) = true then
    let status := substrFrom line 8 (by simpa using compareEq_length (by decide) h)
    let (code, message) := readStatus uninitialised status
    { response with statusCode := ⟨code⟩, statusMessage := trim message (ascii " ") }
  else
    let (name, value) := parseHeaderLine line false
    if name = [] then response
    else if isReservedHeader name then response
    else { response with headers := response.headers.insert name value }

def cgiLine (uninitialised : Int) (response : HttpResponse) (line : Bytes) : HttpResponse :=
  cgiHeader uninitialised response
    (if line.getLast? = some CR then line.dropLast else line)

def cgiResponse (uninitialised : Int) (headerBlock body : Bytes) : HttpResponse :=
  let response := { HttpResponse.ofStatus .Ok with statusMessage := ascii "OK" }
  let response := (getLines LF headerBlock).foldl (cgiLine uninitialised) response
  { response with body := body }.setHeader "Transfer-Encoding" (ascii "chunked")

def splitCgiOutput (cgiOutput : Bytes) : Option (Bytes × Bytes) :=
  match h : findSub (ascii "\r\n\r\n") cgiOutput with
  | some blPos =>
      some (substr cgiOutput 0 blPos (zero_le_length _),
        substrFrom cgiOutput (blPos + 4) (findSub_lt h))
  | none =>
      match h : findSub (ascii "\n\n") cgiOutput with
      | some blPos =>
          some (substr cgiOutput 0 blPos (zero_le_length _),
            substrFrom cgiOutput (blPos + 2) (findSub_lt h))
      | none => none

def parseCgiOutput (uninitialised : Int) (cgiOutput : Bytes) : HttpResponse :=
  match splitCgiOutput cgiOutput with
  | none => .ofStatus .InternalServerError
  | some (headerBlock, body) => cgiResponse uninitialised headerBlock body

/-! ## Running a program -/

def cgiCall (config : Config) (resolvedPath : Bytes) (request : HttpRequest)
    (vhost : Option VirtualHost) (clientRemoteAddr : Option Bytes) : CgiCall :=
  { path := resolvedPath
    environment := buildCgiEnvironment config request vhost clientRemoteAddr
    input := if request.methodStr = ascii "POST" then request.buffer else [] }

def cgiOutcomeResponse (uninitialised : Int) : CgiOutcome → HttpResponse
  | .pipeFailed => .ofStatus .InternalServerError
  | .forkFailed => .ofStatus .InternalServerError
  | .writeFailed => .ofStatus .InternalServerError
  | .readFailed => .ofStatus .GatewayTimeout
  | .exitFailed => .ofStatus .BadGateway
  | .exited output => parseCgiOutput uninitialised output

def CgiEnding.result (uninitialised : Int) : CgiEnding → Except NoReturn HttpResponse
  | .returned outcome => .ok (cgiOutcomeResponse uninitialised outcome)
  | .terminated => .error .terminated
  | .waiting => .error .waiting

def CgiOutcome.started : CgiOutcome → Bool
  | .pipeFailed => false
  | .forkFailed => false
  | _ => true

def CgiEnding.started : CgiEnding → Bool
  | .returned outcome => outcome.started
  | .terminated => true
  | .waiting => true

def runCgi (env : Environment) (config : Config) (resolvedPath : Bytes) (request : HttpRequest)
    (vhost : Option VirtualHost) (clientRemoteAddr : Option Bytes) : Call HttpResponse :=
  fun s =>
    let ending := env.cgi (cgiCall config resolvedPath request vhost clientRemoteAddr)
    let s := match env.fs.reach resolvedPath with
      | none => s
      | some i =>
          if ending.started then { s with accesses := .executed i :: s.accesses } else s
    (ending.result env.uninitialised, s)

/-! ## No response has a file -/

theorem cgiHeader_bodyFd (uninitialised : Int) (response : HttpResponse) (line : Bytes) :
    (cgiHeader uninitialised response line).bodyFd = response.bodyFd := by
  unfold cgiHeader
  dsimp only
  split_ifs <;> rfl

theorem foldl_cgiLine_bodyFd (uninitialised : Int) (response : HttpResponse)
    (lines : List Bytes) :
    (lines.foldl (cgiLine uninitialised) response).bodyFd = response.bodyFd := by
  induction lines generalizing response with
  | nil => rfl
  | cons line lines ih => rw [List.foldl_cons, ih, cgiLine, cgiHeader_bodyFd]

theorem cgiResponse_bodyFd (uninitialised : Int) (headerBlock body : Bytes) :
    (cgiResponse uninitialised headerBlock body).bodyFd = none :=
  foldl_cgiLine_bodyFd uninitialised _ _

theorem parseCgiOutput_bodyFd (uninitialised : Int) (output : Bytes) :
    (parseCgiOutput uninitialised output).bodyFd = none := by
  unfold parseCgiOutput
  cases splitCgiOutput output with
  | none => rfl
  | some parts => exact cgiResponse_bodyFd _ _ _

theorem cgiOutcomeResponse_bodyFd (uninitialised : Int) (outcome : CgiOutcome) :
    (cgiOutcomeResponse uninitialised outcome).bodyFd = none := by
  cases outcome with
  | exited output => exact parseCgiOutput_bodyFd uninitialised output
  | _ => rfl

end CppHttpd
