import CppHttpd.Http.Handlers.RequestHandler

/-!
# What a request comes to

The phases can only end in a few ways, and which of them it is depends on the
request, the configuration and the file system alone.  `route` says which, and
`answer` what is then done; `handle` is one after the other.
-/

namespace CppHttpd

open CppHttpd.Foundation

inductive Route where
  | unavailable
  | load
  | forbidden
  | notFound
  | unauthorized
  | options
  | cgi (vhost : VirtualHost) (path : Bytes)
  | methodNotAllowed
  | file (path : Bytes)
  | directory (vhost : VirtualHost) (path : Bytes)

/-- The path of a request in origin form. -/
def requestPath (request : HttpRequest) : Bytes :=
  let path := (splitUri request.uri).1
  if path ≠ [] ∧ path.head? ≠ some SLASH then SLASH :: path else path

/-- Where a request goes once its object is found and its credentials are good. -/
def contentRoute (request : HttpRequest) (vhost : VirtualHost) (path : Bytes) (st : Stat) :
    Route :=
  if request.method = .OPTIONS then .options
  else if st.kind = .regular ∧ st.executable then .cgi vhost path
  else if request.method = .POST then .methodNotAllowed
  else
    match st.kind with
    | .regular => .file path
    | .directory => .directory vhost path
    | .other => .notFound

def accessRoute (env : Environment) (request : HttpRequest) (vhost : VirtualHost) : Route :=
  if request.methodStr = ascii "GET" ∧ requestPath request = ascii "/load" then .load
  else if (resolvePath vhost (requestPath request)).2 = false then .forbidden
  else
    let path := (resolvePath vhost (requestPath request)).1
    match env.fs.statPath path with
    | none => .notFound
    | some st =>
        match checkHtaccessAndAuth env.fs (dirOfResource path st) request with
        | .ok => contentRoute request vhost path st
        | .missingAuth => .unauthorized
        | .invalidAuth => .unauthorized

def route (env : Environment) (config : Config) (request : HttpRequest) : Route :=
  match resolveVhost config.virtualHosts request with
  | none => .unavailable
  | some vhost => accessRoute env request vhost

def withoutBody (request : HttpRequest) (call : Call HttpResponse) : Call HttpResponse :=
  fun s =>
    match call s with
    | (.error e, s) => (.error e, s)
    | (.ok response, s) =>
        (.ok (dropBody request response s).1, (dropBody request response s).2)

def answer (env : Environment) (config : Config) (request : HttpRequest)
    (acceptingNewConnections : Bool) (clientRemoteAddr : Option Bytes) :
    Route → Call HttpResponse
  | .unavailable => fun s => (.ok (.ofStatus .ServiceUnavailable), s)
  | .load => fun s =>
      (.ok (if acceptingNewConnections then .ofStatus .Ok else .ofStatus .ServiceUnavailable), s)
  | .forbidden => fun s => (.ok (.ofStatus .Forbidden), s)
  | .notFound => fun s => (.ok (.ofStatus .NotFound), s)
  | .unauthorized => fun s => (.ok unauthorizedResponse, s)
  | .options => fun s => (.ok (optionsResponse env), s)
  | .cgi vhost path => runCgi env config path request (some vhost) clientRemoteAddr
  | .methodNotAllowed => fun s => (.ok (.ofStatus .MethodNotAllowed), s)
  | .file path => withoutBody request (serveStaticFile env path request)
  | .directory vhost path =>
      withoutBody request (serveDirectoryIndex env path request vhost.documentRoot)

section

variable (env : Environment) (config : Config)

def keepResponse (ctx : PhaseContext) :
    Except NoReturn HttpResponse × OsState → Except NoReturn PhaseContext × OsState
  | (.error e, s) => (.error e, s)
  | (.ok response, s) => (.ok (ctx.respond response), s)

theorem respondWith_eq (ctx : PhaseContext) (call : Call HttpResponse) (s : OsState) :
    respondWith ctx call false s = keepResponse ctx (call s) := by
  unfold respondWith
  cases call s with
  | mk result s' => cases result <;> rfl

theorem respondWith_head (ctx : PhaseContext) (call : Call HttpResponse) (s : OsState) :
    respondWith ctx call true s = keepResponse ctx (withoutBody ctx.request call s) := by
  unfold respondWith withoutBody
  cases call s with
  | mk result s' => cases result <;> rfl

theorem phaseContent_eq (vhost : VirtualHost) (ctx : PhaseContext) {st : Stat}
    (hready : ctx.responseReady = false) (hvhost : ctx.vhost = some vhost)
    (hst : ctx.st = some st) (hstat : env.fs.statPath ctx.resolvedPath = some st)
    (s : OsState) :
    phaseContent env config vhost ctx s = keepResponse ctx
      (answer env config ctx.request ctx.acceptingNewConnections ctx.clientRemoteAddr
        (contentRoute ctx.request vhost ctx.resolvedPath st) s) := by
  have hexec : isExecutable env.fs ctx.resolvedPath =
      decide (st.kind = .regular ∧ st.executable = true) := by
    simp [isExecutable, hstat]
  unfold phaseContent contentRoute
  simp only [hready, hst, hvhost, hexec, Option.any_some, Bool.false_eq_true, if_false,
    decide_eq_true_eq, respondWith_eq, respondWith_head]
  by_cases hoptions : ctx.request.method = .OPTIONS
  · simp only [hoptions, if_true]
    rfl
  · by_cases hcgi : st.kind = .regular ∧ st.executable = true
    · simp only [hoptions, hcgi, if_false, and_self, if_true]
      rfl
    · simp only [hoptions, hcgi, and_false, if_false]
      by_cases hpost : ctx.request.method = .POST
      · simp only [hpost, if_true]
        rfl
      · simp only [hpost, if_false]
        cases st.kind <;> rfl

/-- The phase Access has either responded or found the object and let the request pass. -/
inductive AccessOutcome (vhost : VirtualHost) (ctx ctx' : PhaseContext) : Prop
  | responded (hready : ctx'.responseReady = true)
      (hanswer : ∀ s, answer env config ctx.request ctx.acceptingNewConnections
        ctx.clientRemoteAddr (accessRoute env ctx.request vhost) s = (.ok ctx'.response, s))
  | passed {st : Stat} (hready : ctx'.responseReady = false) (hvhost : ctx'.vhost = ctx.vhost)
      (hrequest : ctx'.request = ctx.request)
      (haccepting : ctx'.acceptingNewConnections = ctx.acceptingNewConnections)
      (haddr : ctx'.clientRemoteAddr = ctx.clientRemoteAddr)
      (hst : ctx'.st = some st) (hstat : env.fs.statPath ctx'.resolvedPath = some st)
      (hroute : accessRoute env ctx.request vhost =
        contentRoute ctx.request vhost ctx'.resolvedPath st)

theorem phaseAccess_outcome (vhost : VirtualHost) (ctx : PhaseContext)
    (hpath : ctx.path = requestPath ctx.request) (hready : ctx.responseReady = false) :
    AccessOutcome env config vhost ctx (phaseAccess env vhost ctx) := by
  unfold phaseAccess
  rw [hpath]
  by_cases hload : ctx.request.methodStr = ascii "GET" ∧ requestPath ctx.request = ascii "/load"
  · rw [if_pos hload]
    exact .responded rfl fun s => by rw [accessRoute, if_pos hload]; rfl
  · rw [if_neg hload]
    cases hunder : (resolvePath vhost (requestPath ctx.request)).2 with
    | false =>
        simp only [hunder, Bool.not_false, if_true]
        exact .responded rfl fun s => by rw [accessRoute, if_neg hload, if_pos hunder]; rfl
    | true =>
        simp only [hunder, Bool.not_true, Bool.false_eq_true, if_false]
        cases hstat : env.fs.statPath (resolvePath vhost (requestPath ctx.request)).1 with
        | none =>
            exact .responded rfl fun s => by
              rw [accessRoute, if_neg hload, if_neg (by simp [hunder])]
              simp only [hstat]
              rfl
        | some st =>
            have hroute : accessRoute env ctx.request vhost =
                match checkHtaccessAndAuth env.fs (dirOfResource
                    (resolvePath vhost (requestPath ctx.request)).1 st) ctx.request with
                | .ok => contentRoute ctx.request vhost
                    (resolvePath vhost (requestPath ctx.request)).1 st
                | .missingAuth => .unauthorized
                | .invalidAuth => .unauthorized := by
              rw [accessRoute, if_neg hload, if_neg (by simp [hunder])]
              simp only [hstat]
            dsimp only
            cases hauth : checkHtaccessAndAuth env.fs (dirOfResource
                (resolvePath vhost (requestPath ctx.request)).1 st) ctx.request with
            | ok =>
                rw [hauth] at hroute
                exact .passed hready rfl rfl rfl rfl rfl hstat hroute
            | missingAuth =>
                rw [hauth] at hroute
                exact .responded rfl fun s => by rw [hroute]; rfl
            | invalidAuth =>
                rw [hauth] at hroute
                exact .responded rfl fun s => by rw [hroute]; rfl

theorem handle_eq (request : HttpRequest) (acceptingNewConnections : Bool)
    (clientRemoteAddr : Option Bytes) (s : OsState) :
    handle env config request acceptingNewConnections clientRemoteAddr s =
      answer env config request acceptingNewConnections clientRemoteAddr
        (route env config request) s := by
  unfold handle runPhases route
  cases hvhost : resolveVhost config.virtualHosts request with
  | none =>
      simp only [phaseFindConfig, hvhost]
      rfl
  | some vhost =>
      let ctx : PhaseContext :=
        { request, acceptingNewConnections, clientRemoteAddr
          vhost := some vhost
          path := requestPath request
          queryString := (splitUri request.uri).2 }
      have hfind : phaseFindConfig config
          { request, acceptingNewConnections, clientRemoteAddr } = ctx := by
        simp only [phaseFindConfig, hvhost]
        rfl
      simp only [hfind]
      have hout := phaseAccess_outcome env config vhost ctx rfl rfl
      have hctx : ctx.responseReady = false ∧ ctx.vhost = some vhost := ⟨rfl, rfl⟩
      simp only [hctx.1, hctx.2, Bool.false_eq_true, if_false]
      cases hout with
      | responded hready hanswer =>
          rw [if_pos hready]
          exact (hanswer s).symm
      | passed hready hvhost' hrequest haccepting haddr hst hstat hroute =>
          rw [if_neg (by simp [hready]),
            phaseContent_eq env config vhost _ hready (hvhost'.trans rfl) hst hstat, hrequest,
            haccepting, haddr, ← hroute]
          change _ = answer env config ctx.request ctx.acceptingNewConnections
            ctx.clientRemoteAddr (accessRoute env ctx.request vhost) s
          cases answer env config ctx.request ctx.acceptingNewConnections
              ctx.clientRemoteAddr (accessRoute env ctx.request vhost) s with
          | mk result s' => cases result <;> rfl

end

end CppHttpd
