import CppHttpd.Http.Handlers.StaticFileHandler

/-!
# Directories

A directory is served by its index file, or else by a listing that is made of
its entries.
-/

namespace CppHttpd

open CppHttpd.Foundation

structure DirEntry where
  name : Bytes
  isDir : Bool := false
  size : Nat := 0
  mtime : Int := 0

def formatSize (env : Environment) (bytes : Nat) : Bytes :=
  if bytes < 1024 then toDecimal bytes else env.formatLargeSize bytes

def htmlEscapeByte (c : Byte) : Bytes :=
  if c = byteOf '&' then ascii "&amp;"
  else if c = byteOf '<' then ascii "&lt;"
  else if c = byteOf '>' then ascii "&gt;"
  else if c = byteOf '"' then ascii "&quot;"
  else [c]

def htmlEscape (s : Bytes) : Bytes := s.flatMap htmlEscapeByte

def dirEntry (fs : FileSystem) (dirPath name : Bytes) : DirEntry :=
  match fs.statPath (dirPath ++ [SLASH] ++ name) with
  | none => { name := name }
  | some st =>
      { name := name, isDir := st.kind = .directory, size := st.size, mtime := st.mtime }

/-- Directories first, then alphabetical within each group. -/
def entryBefore (a b : DirEntry) : Bool :=
  if a.isDir ≠ b.isDir then a.isDir else !decide (b.name < a.name)

def entryLine (env : Environment) (e : DirEntry) : Bytes :=
  let display := htmlEscape e.name ++ if e.isDir then [SLASH] else []
  let pad := if display.length < 40 then List.replicate (40 - display.length) SP else [SP]
  ascii "<a href=\"" ++ display ++ ascii "\">" ++ display ++ ascii "</a>" ++ pad ++
    env.formatMtime e.mtime ++ ascii "  " ++
    (if e.isDir then ascii "-" else formatSize env e.size) ++ [LF]

def listingText (env : Environment) (uriPath : Bytes) (entries : List DirEntry) : Bytes :=
  let base :=
    if uriPath = [] ∨ uriPath.getLast? ≠ some SLASH then uriPath ++ [SLASH] else uriPath
  let title := ascii "Index of " ++ htmlEscape base
  ascii "<!DOCTYPE html>\n<html>\n<head><meta charset=\"utf-8\"><title>" ++ title ++
    ascii "</title></head>\n<body>\n<h1>" ++ title ++ ascii "</h1><hr>\n<pre>\n" ++
    (if base ≠ [SLASH] then ascii "<a href=\"../\">../</a>\n" else []) ++
    entries.flatMap (entryLine env) ++
    ascii "</pre><hr>\n</body>\n</html>\n"

/-- The text is empty if the directory cannot be opened. -/
def buildListing (env : Environment) (uriPath dirPath : Bytes) (s : OsState) :
    Bytes × OsState :=
  match env.fs.reach dirPath with
  | none => ([], s)
  | some i =>
      if env.fs.isDirectory i ∧ env.fs.readable i then
        let names := (env.fs.names i).filter fun name => name ≠ ascii "." ∧ name ≠ ascii ".."
        let entries := (names.map (dirEntry env.fs dirPath)).mergeSort entryBefore
        (listingText env uriPath entries, { s with accesses := .listed i :: s.accesses })
      else ([], s)

def indexCandidates (dirPath : Bytes) (request : HttpRequest) (documentRoot : Bytes) :
    List Bytes :=
  let base :=
    if dirPath = [] ∨ dirPath.getLast? ≠ some SLASH then dirPath ++ [SLASH] else dirPath
  let isDocRoot := normalizePath (trimTrailingSlash dirPath) =
    normalizePath (trimTrailingSlash documentRoot)
  let mobile :=
    (findSub (ascii "iPhone") (getHeader request.headers (ascii "user-agent"))).isSome
  if isDocRoot ∧ mobile then [base ++ ascii "index_m.html", base ++ ascii "index.html"]
  else [base ++ ascii "index.html"]

def isRegularFile (fs : FileSystem) (path : Bytes) : Bool :=
  (fs.statPath path).any fun st => st.kind = .regular

def indexFile (fs : FileSystem) (dirPath : Bytes) (request : HttpRequest)
    (documentRoot : Bytes) : Option Bytes :=
  (indexCandidates dirPath request documentRoot).find? (isRegularFile fs)

def listingResponse (body : Bytes) : HttpResponse :=
  let resp := (HttpResponse.ofStatus .Ok)
    |>.setHeader "Content-Type" (ascii "text/html; charset=utf-8")
    |>.setHeader "Content-Length" (toDecimal body.length)
  { resp with body := body }

def serveDirectoryIndex (env : Environment) (dirPath : Bytes) (request : HttpRequest)
    (documentRoot : Bytes) : Call HttpResponse := fun s =>
  match indexFile env.fs dirPath request documentRoot with
  | some path => serveStaticFile env path request s
  | none =>
      let uriPath := match find request.uri QUESTION 0 with
        | none => request.uri
        | some q => substr request.uri 0 q (zero_le_length _)
      let (body, s) := buildListing env uriPath dirPath s
      if body = [] then (.ok (.ofStatus .Forbidden), s)
      else (.ok (listingResponse body), s)

end CppHttpd
