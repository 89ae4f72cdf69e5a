import CppHttpd.Http.Handlers.Containment

/-!
# GET and HEAD

Of two requests that differ in the method only, one GET and one HEAD, the phases
make the same response.  The method counts where `/load` is answered, where a
program is run, and where the body is dropped at the end.
-/

namespace CppHttpd

open CppHttpd.Foundation

def HttpRequest.withMethod (request : HttpRequest) (method : Method) : HttpRequest :=
  { request with method := method, methodStr := method.toBytes }

/-- The object that the request names is a program. -/
def NamesProgram (env : Environment) (config : Config) (request : HttpRequest) : Prop :=
  ∃ vhost, resolveVhost config.virtualHosts request = some vhost ∧
    isExecutable env.fs (resolvePath vhost (requestPath request)).1 = true

/-- `parse_range` does not throw, whatever the size of the file is. -/
def ReadsRange (request : HttpRequest) : Prop :=
  ∀ fileSize e, parseRange (getHeader request.headers (ascii "range")) fileSize ≠ .error e

/-- The second response is the first without its body, and nothing more is open than before. -/
structure AgreesWithoutBody (s : OsState) (get head : HttpResponse) (s' : OsState) : Prop where
  statusCode : head.statusCode = get.statusCode
  headers : head.headers = get.headers
  body : head.body = []
  bodyFd : head.bodyFd = none
  closed : s'.openFds = s.openFds

def HeadAgrees (s : OsState) (get head : Except NoReturn HttpResponse × OsState) : Prop :=
  ∃ response response', get.1 = .ok response ∧ head.1 = .ok response' ∧
    AgreesWithoutBody s response response' head.2

section

variable {env : Environment} {config : Config} {request : HttpRequest} {s : OsState}

/-! ## What the method changes -/

theorem agrees_of_same {response : HttpResponse} (hbody : response.body = [])
    (hfd : response.bodyFd = none) : HeadAgrees s (.ok response, s) (.ok response, s) :=
  ⟨response, response, rfl, rfl, rfl, rfl, hbody, hfd, rfl⟩

theorem withoutBody_agrees {call : Call HttpResponse} (h : Contained s (call s)) :
    HeadAgrees s (withoutBody (request.withMethod .GET) call s)
      (withoutBody (request.withMethod .HEAD) call s) := by
  obtain ⟨response, hresponse, hopen⟩ := h
  have hcall : call s = (.ok response, (call s).2) := Prod.ext hresponse rfl
  have hget : withoutBody (request.withMethod .GET) call s = (.ok response, (call s).2) := by
    rw [withoutBody, hcall]
    rfl
  have hhead : withoutBody (request.withMethod .HEAD) call s =
      (.ok { response with bodyFd := none, body := [] },
        response.bodyFd.elim (call s).2 fun fd => (call s).2.closeFile fd) := by
    rw [withoutBody, hcall]
    cases hfd : response.bodyFd <;> simp [dropBody, HttpRequest.withMethod, hfd]
  rw [hget, hhead]
  refine ⟨_, _, rfl, rfl, rfl, rfl, rfl, rfl, ?_⟩
  cases hfd : response.bodyFd with
  | none =>
      rw [hfd] at hopen
      exact hopen
  | some fd =>
      rw [hfd] at hopen
      simp [OsState.closeFile, hopen]

/-! ## What it leaves as it is -/

theorem contentRoute_head (vhost : VirtualHost) (path : Bytes) (st : Stat) :
    contentRoute (request.withMethod .HEAD) vhost path st =
      contentRoute (request.withMethod .GET) vhost path st := by
  simp [contentRoute, HttpRequest.withMethod]

theorem accessRoute_head (hload : requestPath request ≠ ascii "/load") (vhost : VirtualHost) :
    accessRoute env (request.withMethod .HEAD) vhost =
      accessRoute env (request.withMethod .GET) vhost := by
  have hpath (method : Method) : requestPath (request.withMethod method) = requestPath request :=
    rfl
  have hauth (dir : Bytes) (method : Method) :
      checkHtaccessAndAuth env.fs dir (request.withMethod method) =
        checkHtaccessAndAuth env.fs dir request := rfl
  simp only [accessRoute, hpath, hauth, hload, and_false, if_false, contentRoute_head]

theorem route_head (hload : requestPath request ≠ ascii "/load") :
    route env config (request.withMethod .HEAD) = route env config (request.withMethod .GET) := by
  have hvhost (method : Method) : resolveVhost config.virtualHosts (request.withMethod method) =
      resolveVhost config.virtualHosts request := rfl
  simp only [route, hvhost, accessRoute_head hload]

theorem ReadsRange.contained (h : ReadsRange request) {path : Bytes}
    {r : Except NoReturn HttpResponse × OsState} (hend : FileEnd env request path s r) :
    Contained s r := by
  rw [hend.contained_iff]
  rintro ⟨-, hthrows⟩
  obtain ⟨e, he⟩ := (parseRange_error_iff _ 0).2 hthrows
  exact h 0 e he

theorem ReadsRange.directory (h : ReadsRange request) (path documentRoot : Bytes) :
    Contained s (serveDirectoryIndex env path request documentRoot s) := by
  cases hindex : indexFile env.fs path request documentRoot with
  | none => exact serveDirectoryIndex_listing hindex s
  | some file =>
      rw [serveDirectoryIndex_file hindex]
      exact h.contained (serveStaticFile_end env file request s)

theorem regular_of_contentRoute {vhost vhost' : VirtualHost} {path path' : Bytes} {st : Stat}
    (h : contentRoute request vhost path st = .cgi vhost' path') :
    st.kind = .regular ∧ st.executable = true := by
  unfold contentRoute at h
  split_ifs at h with hoptions hexec hpost
  · exact hexec
  · cases hkind : st.kind <;> rw [hkind] at h <;> cases h

theorem namesProgram_of_route {vhost : VirtualHost} {path : Bytes}
    (h : route env config request = .cgi vhost path) : NamesProgram env config request := by
  unfold route at h
  split at h
  · cases h
  · rename_i vhost' hvhost
    refine ⟨vhost', hvhost, ?_⟩
    unfold accessRoute at h
    split_ifs at h
    dsimp only at h
    split at h
    · cases h
    · rename_i st hstat
      split at h
      · obtain ⟨hkind, hexec⟩ := regular_of_contentRoute h
        simp [isExecutable, hstat, hkind, hexec]
      · cases h
      · cases h

/--
A HEAD request is answered with the status and the headers of the GET request and
without a body, and it leaves no descriptor open.
-/
theorem handle_head_agrees (env : Environment) (config : Config) (request : HttpRequest)
    (acceptingNewConnections : Bool) (clientRemoteAddr : Option Bytes) (s : OsState)
    (hload : requestPath request ≠ ascii "/load") (hprogram : ¬ NamesProgram env config request)
    (hrange : ReadsRange request) :
    HeadAgrees s
      (handle env config (request.withMethod .GET) acceptingNewConnections clientRemoteAddr s)
      (handle env config (request.withMethod .HEAD) acceptingNewConnections clientRemoteAddr
        s) := by
  rw [handle_eq, handle_eq, route_head hload]
  cases hroute : route env config (request.withMethod .GET) with
  | unavailable => exact agrees_of_same rfl rfl
  | load => cases acceptingNewConnections <;> exact agrees_of_same rfl rfl
  | forbidden => exact agrees_of_same rfl rfl
  | notFound => exact agrees_of_same rfl rfl
  | unauthorized => exact agrees_of_same rfl rfl
  | options => exact agrees_of_same rfl rfl
  | methodNotAllowed => exact agrees_of_same rfl rfl
  | cgi vhost path => exact absurd (namesProgram_of_route hroute) hprogram
  | file path =>
      exact withoutBody_agrees (hrange.contained (serveStaticFile_end env path request s))
  | directory vhost path => exact withoutBody_agrees (hrange.directory path vhost.documentRoot)

end

theorem handle_head_agrees_flat :
    let config : Config := { virtualHosts := [⟨ascii "/", ascii "localhost"⟩] }
    let env := Environment.still (.flat [(ascii "a.txt", ascii "hello")]) fun _ => .forkFailed
    let request : HttpRequest := { uri := ascii "/a.txt" }
    HeadAgrees {} (handle env config (request.withMethod .GET) true none {})
      (handle env config (request.withMethod .HEAD) true none {}) := by
  intro config env request
  refine handle_head_agrees env config request true none {} (by decide) ?_ ?_
  · rintro ⟨vhost, hvhost, hexec⟩
    obtain rfl := Option.some.inj hvhost
    revert hexec
    decide
  · rintro fileSize e ⟨⟩

end CppHttpd
