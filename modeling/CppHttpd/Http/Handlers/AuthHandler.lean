import CppHttpd.Http.Core.Htaccess
import CppHttpd.Os.FileSystem

/-!
# Basic authentication
-/

namespace CppHttpd

open CppHttpd.Foundation

inductive AuthResult where
  | ok
  | missingAuth
  | invalidAuth
  deriving DecidableEq, Repr

/-- The comparison of a request's credentials with an access file. -/
def checkCredentials (htaccess : HtaccessAuth) (request : HttpRequest) : AuthResult :=
  let authHeader := getHeader request.headers (ascii "authorization")
  if authHeader = [] then .missingAuth
  else if h : startsWith authHeader (ascii "basic ") = true then
    let base64Credentials := substrFrom authHeader 6 (startsWith_length h)
    let credentials := decodeBase64 base64Credentials
    if credentials = [] then .missingAuth
    else
      match hc : find credentials COLON 0 with
      | none => .invalidAuth
      | some colonPos =>
          let clientUser := substr credentials 0 colonPos (zero_le_length _)
          let clientPassword := substrFrom credentials (colonPos + 1) (find_lt hc)
          let expectedUser := decodeBase64 htaccess.userB64
          let expectedPassword := decodeBase64 htaccess.passwordB64
          if clientUser ≠ expectedUser ∨ clientPassword ≠ expectedPassword then .invalidAuth
          else .ok
  else .missingAuth

def htaccessPath (dirPath : Bytes) : Bytes := trimTrailingSlash dirPath ++ ascii "/.htaccess"

def checkHtaccessAndAuth (fs : FileSystem) (dirPath : Bytes) (request : HttpRequest) :
    AuthResult :=
  match (fs.readFile (htaccessPath dirPath)).bind parseHtaccess with
  | none => .ok
  | some htaccess => checkCredentials htaccess request

end CppHttpd
