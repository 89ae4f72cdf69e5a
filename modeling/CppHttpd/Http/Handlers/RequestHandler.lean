import CppHttpd.Http.Handlers.AuthHandler
import CppHttpd.Http.Handlers.CgiHandler
import CppHttpd.Http.Handlers.DirectoryHandler

/-!
# The phases of a request

A request goes through the phases FindConfig, Access and Content; each of them
may have the response ready, and then the later ones are left out.  The phase
Log, which comes last, only writes a line to the log.
-/

namespace CppHttpd

open CppHttpd.Foundation

structure PhaseContext where
  request : HttpRequest
  acceptingNewConnections : Bool := true
  clientRemoteAddr : Option Bytes := none
  vhost : Option VirtualHost := none
  path : Bytes := []
  queryString : Bytes := []
  resolvedPath : Bytes := []
  underRoot : Bool := false
  /-- `none` unless `stat_valid`. -/
  st : Option Stat := none
  dirOfResource : Bytes := []
  response : HttpResponse := {}
  responseReady : Bool := false

namespace PhaseContext

def respond (ctx : PhaseContext) (response : HttpResponse) : PhaseContext :=
  { ctx with response := response, responseReady := true }

end PhaseContext

def phaseFindConfig (config : Config) (ctx : PhaseContext) : PhaseContext :=
  match resolveVhost config.virtualHosts ctx.request with
  | none => ctx.respond (.ofStatus .ServiceUnavailable)
  | some vhost =>
      let (path, queryString) := splitUri ctx.request.uri
      { ctx with
        vhost := some vhost
        path := if path ≠ [] ∧ path.head? ≠ some SLASH then SLASH :: path else path
        queryString := queryString }

def dirOfResource (resolvedPath : Bytes) (st : Stat) : Bytes :=
  if st.kind = .directory then resolvedPath
  else
    match rfind resolvedPath SLASH with
    | none => []
    | some lastSlash => substr resolvedPath 0 lastSlash (zero_le_length _)

def unauthorizedResponse : HttpResponse :=
  (HttpResponse.ofStatus .InvalidCredentials)
    |>.setHeader "WWW-Authenticate" (ascii "Basic realm=\"Restricted Files\"")
    |>.setHeader "Content-Length" (ascii "0")

def phaseAccess (env : Environment) (vhost : VirtualHost) (ctx : PhaseContext) :
    PhaseContext :=
  if ctx.request.methodStr = ascii "GET" ∧ ctx.path = ascii "/load" then
    ctx.respond (if ctx.acceptingNewConnections then .ofStatus .Ok
      else .ofStatus .ServiceUnavailable)
  else
    let (resolved, under) := resolvePath vhost ctx.path
    let ctx := { ctx with resolvedPath := resolved, underRoot := under }
    if !ctx.underRoot then ctx.respond (.ofStatus .Forbidden)
    else
      match env.fs.statPath ctx.resolvedPath with
      | none => ctx.respond (.ofStatus .NotFound)
      | some st =>
          let ctx := { ctx with
            st := some st
            dirOfResource := dirOfResource ctx.resolvedPath st }
          match checkHtaccessAndAuth env.fs ctx.dirOfResource ctx.request with
          | .ok => ctx
          | .missingAuth => ctx.respond unauthorizedResponse
          | .invalidAuth => ctx.respond unauthorizedResponse

def optionsResponse (env : Environment) : HttpResponse :=
  (HttpResponse.ofStatus .NoContent)
    |>.setHeader "Allow" (ascii "GET, HEAD, POST, OPTIONS")
    |>.setHeader "Date" (env.formatHttpDate env.now)

def dropBody (request : HttpRequest) (response : HttpResponse) (s : OsState) :
    HttpResponse × OsState :=
  if request.method = .HEAD then
    let s := match response.bodyFd with
      | none => s
      | some fd => s.closeFile fd
    ({ response with bodyFd := none, body := [] }, s)
  else (response, s)

def isExecutable (fs : FileSystem) (path : Bytes) : Bool :=
  (fs.statPath path).any fun st => st.kind = .regular ∧ st.executable

/-- Keep the response of a call, if it returns one. -/
def respondWith (ctx : PhaseContext) (call : Call HttpResponse) (head : Bool) :
    Call PhaseContext := fun s =>
  match call s with
  | (.error e, s) => (.error e, s)
  | (.ok response, s) =>
      if head then
        let (response, s) := dropBody ctx.request response s
        (.ok (ctx.respond response), s)
      else (.ok (ctx.respond response), s)

def phaseContent (env : Environment) (config : Config) (vhost : VirtualHost)
    (ctx : PhaseContext) : Call PhaseContext := fun s =>
  if ctx.responseReady then (.ok ctx, s)
  else if ctx.request.method = .OPTIONS then (.ok (ctx.respond (optionsResponse env)), s)
  else
    let isRegular := ctx.st.any fun st => st.kind = .regular
    let isDirectory := ctx.st.any fun st => st.kind = .directory
    if isRegular ∧ isExecutable env.fs ctx.resolvedPath then
      respondWith ctx (runCgi env config ctx.resolvedPath ctx.request ctx.vhost
        ctx.clientRemoteAddr) false s
    else if ctx.request.method = .POST then
      (.ok (ctx.respond (.ofStatus .MethodNotAllowed)), s)
    else if isRegular then
      respondWith ctx (serveStaticFile env ctx.resolvedPath ctx.request) true s
    else if isDirectory then
      respondWith ctx (serveDirectoryIndex env ctx.resolvedPath ctx.request
        vhost.documentRoot) true s
    else (.ok (ctx.respond (.ofStatus .NotFound)), s)

def runPhases (env : Environment) (config : Config) (ctx : PhaseContext) :
    Call PhaseContext := fun s =>
  let ctx := phaseFindConfig config ctx
  if ctx.responseReady then (.ok ctx, s)
  else
    match ctx.vhost with
    -- without a host, the first phase has responded
    | none => (.ok (ctx.respond (.ofStatus .InternalServerError)), s)
    | some vhost =>
        let ctx := phaseAccess env vhost ctx
        if ctx.responseReady then (.ok ctx, s)
        else
          match phaseContent env config vhost ctx s with
          | (.error e, s) => (.error e, s)
          | (.ok ctx, s) =>
              if ctx.responseReady then (.ok ctx, s)
              else (.ok (ctx.respond (.ofStatus .InternalServerError)), s)

def handle (env : Environment) (config : Config) (request : HttpRequest)
    (acceptingNewConnections : Bool) (clientRemoteAddr : Option Bytes) :
    Call HttpResponse := fun s =>
  let ctx : PhaseContext := { request, acceptingNewConnections, clientRemoteAddr }
  match runPhases env config ctx s with
  | (.error e, s) => (.error e, s)
  | (.ok ctx, s) => (.ok ctx.response, s)

end CppHttpd
