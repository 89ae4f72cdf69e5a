import CppHttpd.Http.Core.RequestHandlerUtils

/-!
# Virtual hosts

Which virtual host a request is for, and which path under its document root the
request names.
-/

namespace CppHttpd

open CppHttpd.Foundation

structure VirtualHost where
  documentRoot : Bytes
  serverName : Bytes

def resolveVhost (virtualHosts : List VirtualHost) (request : HttpRequest) :
    Option VirtualHost :=
  let host := getHeader request.headers (ascii "host")
  -- the optional port is no part of the name
  let host := match find host COLON 0 with
    | none => host
    | some colon => substr host 0 colon (zero_le_length _)
  let named := if host = [] then none
    else virtualHosts.find? fun vhost => toLower vhost.serverName = toLower host
  named.or virtualHosts.head?

def combinePath (root uri : Bytes) : Bytes :=
  if uri = [] ∨ uri = [SLASH] then root
  else trimTrailingSlash root ++ [SLASH] ++ trimLeadingSlash uri

def resolvePath (vhost : VirtualHost) (uri : Bytes) : Bytes × Bool :=
  let canonicalPath := normalizePath (combinePath vhost.documentRoot uri)
  if pathUnderRoot canonicalPath vhost.documentRoot then (canonicalPath, true)
  else ([], false)

end CppHttpd
