import CppHttpd.Os.Environment

/-!
# Static files

A file is opened once, and handed over by its descriptor: whole, or a range of
it.  `parse_range` reads the numbers of a `Range` header with `std::stoull`, and
nothing catches what that throws.
-/

namespace CppHttpd

open CppHttpd.Foundation

/-- The positions of a valid range; `none` is a range that is not valid. -/
def parseRange (header : Bytes) (fileSize : Nat) : Except StdException (Option (Nat × Nat)) :=
  if h : compareEq header 0 6 (ascii "bytes=") (zero_le_length _) = true then
    let spec := substrFrom header 6 (by simpa using compareEq_length (by decide) h)
    match hd : find spec DASH 0 with
    | none => .ok none
    | some dash =>
        let startStr := substr spec 0 dash (zero_le_length _)
        let endStr := substrFrom spec (dash + 1) (find_lt hd)
        let last := if fileSize > 0 then fileSize - 1 else 0
        if startStr = [] ∧ endStr = [] then .ok none
        else do
          let (start, last) ←
            if startStr = [] then do
              let suffix ← stoull endStr
              .ok (if suffix ≥ fileSize then 0 else fileSize - suffix, last)
            else do
              let start ← stoull startStr
              let last ← if endStr ≠ [] then stoull endStr else .ok last
              .ok (start, last)
          if start > last ∨ last ≥ fileSize then .ok none else .ok (some (start, last))
  else .ok none

def generateEtag (st : Stat) : Bytes :=
  ascii "\"" ++ HttpResponse.toHex st.ino ++ ascii "-" ++ HttpResponse.toHex st.size ++
    ascii "-" ++ HttpResponse.toHex (st.mtime % 2 ^ 64).toNat ++ ascii "\""

def acceptsToken (contentType token : Bytes) : Bool :=
  let base := match find token SEMICOLON 0 with
    | none => token
    | some semicolon => substr token 0 semicolon (zero_le_length _)
  let type := trim base (ascii " \t")
  if type = [] then false
  else if type = ascii "*/*" then true
  else if type = contentType then true
  else
    type.length ≥ 2 ∧ type.getLast? = some (byteOf '*') ∧
      type[type.length - 2]? = some SLASH ∧ contentType.length ≥ type.length - 1 ∧
      compareEq contentType 0 (type.length - 1)
        (substr type 0 (type.length - 1) (zero_le_length _)) (zero_le_length _) = true

def checkAccept (request : HttpRequest) (contentType : Bytes) : Bool :=
  let accept := getHeader request.headers (ascii "accept")
  if accept = [] then true
  else (getLines COMMA accept).any (acceptsToken contentType)

/-- The conditional headers say that the client has the file already. -/
def notModified (env : Environment) (request : HttpRequest) (st : Stat) : Bool :=
  let ifNoneMatch := getHeader request.headers (ascii "if-none-match")
  let ifModified := getHeader request.headers (ascii "if-modified-since")
  (ifNoneMatch ≠ [] && ifNoneMatch = generateEtag st) ||
    (ifModified ≠ [] &&
      match env.parseHttpDate ifModified with
      | none => false
      | some ifModifiedTime => ifModifiedTime ≤ env.now && st.mtime ≤ ifModifiedTime)

def notModifiedResponse (env : Environment) (st : Stat) : HttpResponse :=
  (HttpResponse.ofStatus .NotModified)
    |>.setHeader "Date" (env.formatHttpDate env.now)
    |>.setHeader "Server" (ascii "Server/1.0")
    |>.setHeader "ETag" (generateEtag st)

def fileResponse (env : Environment) (code : StatusCode) (resolvedPath : Bytes) (st : Stat) :
    HttpResponse :=
  (HttpResponse.ofStatus code)
    |>.setHeader "Date" (env.formatHttpDate env.now)
    |>.setHeader "Server" (ascii "Server/1.0")
    |>.setHeader "Content-Type" (contentTypeFromSuffix resolvedPath)
    |>.setHeader "Last-Modified" (env.formatHttpDate st.mtime)
    |>.setHeader "ETag" (generateEtag st)
    |>.setHeader "Cache-Control" (ascii "max-age=3600")

def rangeNotSatisfiable (st : Stat) : HttpResponse :=
  (HttpResponse.ofStatus .RangeNotSatisfiable).setHeader "Content-Range"
    (ascii "bytes */" ++ toDecimal st.size)

def rangeResponse (env : Environment) (resolvedPath : Bytes) (st : Stat) (fd : Fd)
    (start last : Nat) : HttpResponse :=
  let length := last - start + 1
  let resp := (fileResponse env .PartialContent resolvedPath st)
    |>.setHeader "Content-Range" (ascii "bytes " ++ toDecimal start ++ ascii "-" ++
      toDecimal last ++ ascii "/" ++ toDecimal st.size)
    |>.setHeader "Content-Length" (toDecimal length)
  { resp with bodyFd := some fd, bodyFdOffset := start, bodyFdSize := length }

def wholeResponse (env : Environment) (resolvedPath : Bytes) (st : Stat) (fd : Fd) :
    HttpResponse :=
  let resp := (fileResponse env .Ok resolvedPath st).setHeader "Content-Length"
    (toDecimal st.size)
  { resp with bodyFd := some fd, bodyFdOffset := 0, bodyFdSize := st.size }

def serveOpenFile (env : Environment) (resolvedPath : Bytes) (request : HttpRequest) (st : Stat)
    (fd : Fd) : Call HttpResponse := fun s =>
  let rangeHeader := getHeader request.headers (ascii "range")
  if rangeHeader ≠ [] then
    match parseRange rangeHeader st.size with
    | .error e => (.error (.throws e), s)
    | .ok none => (.ok (rangeNotSatisfiable st), s.closeFile fd)
    | .ok (some (start, last)) => (.ok (rangeResponse env resolvedPath st fd start last), s)
  else (.ok (wholeResponse env resolvedPath st fd), s)

def serveStaticFile (env : Environment) (resolvedPath : Bytes) (request : HttpRequest) :
    Call HttpResponse := fun s =>
  match env.fs.statPath resolvedPath with
  | none => (.ok (.ofStatus .NotFound), s)
  | some st =>
      if st.kind ≠ .regular then (.ok (.ofStatus .NotFound), s)
      else if notModified env request st then (.ok (notModifiedResponse env st), s)
      else if !checkAccept request (contentTypeFromSuffix resolvedPath) then
        (.ok (.ofStatus .NotAcceptable), s)
      else
        match s.openFile env resolvedPath with
        | (none, s) => (.ok (.ofStatus .InternalServerError), s)
        | (some fd, s) => serveOpenFile env resolvedPath request st fd s

end CppHttpd
