import CppHttpd.Http.Connection.ServingThread
import CppHttpd.Http.Core.StreamBytes
import CppHttpd.Http.Handlers.Exposure

/-!
# What a connection gets at

A client can send any number of requests over a connection.  As long as it sends
no NUL byte, none of them gets at anything but what the document roots and the
access files leave open to it.
-/

namespace CppHttpd

open CppHttpd.Foundation

/-- The requests that the thread has handled, with the number of each. -/
def ServingThread.Handled (t : ServingThread) (k : Nat) (request : HttpRequest) : Prop :=
  (t.replies[k]?).map Reply.request = some request ∨
    (∃ e, t.stage = .stopped e) ∧ k = t.replies.length

/-- A request of the connection has got at the object, as the files were then. -/
structure ExposedTo (setting : ThreadSetting) (t : ServingThread) (access : Access) : Prop where
  intro ::
  exists_request : ∃ k request vhost, t.Handled k request ∧
    resolveVhost setting.config.virtualHosts request = some vhost ∧
    Exposed (setting.env k).fs vhost request access

/-- Everything that was got at since the connection was accepted. -/
structure AllExposed (setting : ThreadSetting) (before : List Access) (t : ServingThread) :
    Prop where
  intro ::
  exists_accesses : ∃ accesses, t.os.accesses = accesses ++ before ∧
    ∀ access ∈ accesses, ExposedTo setting t access

theorem resolveVhost_mem {virtualHosts : List VirtualHost} {request : HttpRequest}
    {vhost : VirtualHost} (h : resolveVhost virtualHosts request = some vhost) :
    vhost ∈ virtualHosts := by
  unfold resolveVhost at h
  dsimp only at h
  rcases Option.or_eq_some_iff.1 h with hnamed | ⟨-, hfirst⟩
  · split_ifs at hnamed
    exact List.mem_of_find?_eq_some hnamed
  · exact List.mem_of_mem_head? hfirst

/-- Whichever host it is for, a request without NUL. -/
theorem handle_exposes {config : Config} {request : HttpRequest}
    (hroots : ∀ vhost ∈ config.virtualHosts, Rooted vhost) (huri : NUL ∉ request.uri)
    (env : Environment) (acceptingNewConnections : Bool) (clientRemoteAddr : Option Bytes)
    (s : OsState) :
    GetsAt (fun access => ∃ vhost, resolveVhost config.virtualHosts request = some vhost ∧
        Exposed env.fs vhost request access) s
      (handle env config request acceptingNewConnections clientRemoteAddr s).2 := by
  cases hvhost : resolveVhost config.virtualHosts request with
  | none =>
      rw [handle_eq, route, hvhost]
      exact .inl rfl
  | some vhost =>
      have hgets : GetsAt (Exposed env.fs vhost request) s
          (handle env config request acceptingNewConnections clientRemoteAddr s).2 :=
        handle_getsAt hvhost (hroots vhost (resolveVhost_mem hvhost)) huri
          acceptingNewConnections clientRemoteAddr s
      exact hgets.imp fun access hexposed => ⟨vhost, rfl, hexposed⟩

theorem ServingThread.send_accesses (t : ServingThread) (files : OpenFiles)
    (package : ResponsePackage) : (t.send files package).os.accesses = t.os.accesses := by
  unfold ServingThread.send
  dsimp only
  split_ifs
  · rfl
  · cases package.bodyFd <;> rfl

theorem ServingThread.respond_accesses (t : ServingThread) (it : HttpResponse.Iteration)
    (os : OsState) (reply : Reply) : (t.respond it os reply).os.accesses = os.accesses :=
  ServingThread.send_accesses _ _ _

section

variable {setting : ThreadSetting} {before : List Access} {t t' : ServingThread}

/-- A turn that forgets no request gets at one object more. -/
theorem AllExposed.grow (h : AllExposed setting before t)
    (hhandled : ∀ k request, t.Handled k request → t'.Handled k request)
    (hgets : GetsAt (ExposedTo setting t') t.os t'.os) : AllExposed setting before t' := by
  obtain ⟨accesses, haccesses, hall⟩ := h
  have hkept : ∀ access ∈ accesses, ExposedTo setting t' access := by
    intro access hmem
    obtain ⟨k, request, vhost, hrequest, hrest⟩ := hall access hmem
    exact ⟨k, request, vhost, hhandled k request hrequest, hrest⟩
  rcases hgets with hsame | ⟨access, hexposed, hnext⟩
  · exact ⟨accesses, hsame.trans haccesses, hkept⟩
  · refine ⟨access :: accesses, ?_, List.forall_mem_cons.2 ⟨hexposed, hkept⟩⟩
    rw [hnext, haccesses, List.cons_append]

theorem handled_of_replies (hserving : t.stage = .serving) (hreplies : t.replies <+: t'.replies)
    {k : Nat} {request : HttpRequest} (h : t.Handled k request) : t'.Handled k request := by
  rcases h with hreply | ⟨⟨e, hstopped⟩, -⟩
  · left
    obtain ⟨reply, hk, hrequest⟩ := Option.map_eq_some_iff.1 hreply
    obtain ⟨later, hlater⟩ := hreplies
    rw [← hlater, List.getElem?_append_left (List.getElem?_eq_some_iff.1 hk).1]
    exact hreply
  · rw [hserving] at hstopped
    cases hstopped

theorem AllExposed.answer (h : AllExposed setting before t) (hserving : t.stage = .serving)
    (hroots : ∀ vhost ∈ setting.config.virtualHosts, Rooted vhost) {request : HttpRequest}
    (huri : NUL ∉ request.uri) : AllExposed setting before (answerRequest setting t request).1 := by
  have hgets := handle_exposes hroots huri (setting.env t.replies.length)
    (setting.accepting t.replies.length) setting.clientRemoteAddr t.os
  unfold answerRequest
  cases hhandled : handle (setting.env t.replies.length) setting.config request
      (setting.accepting t.replies.length) setting.clientRemoteAddr t.os with
  | mk result os =>
      rw [hhandled] at hgets
      simp only [hhandled]
      cases result with
      | error e =>
          dsimp only
          refine h.grow (fun k _ => handled_of_replies hserving (by exact List.prefix_refl _))
            (hgets.imp ?_)
          rintro access ⟨vhost, hvhost, hexposed⟩
          exact ⟨_, request, vhost, .inr ⟨⟨e, rfl⟩, rfl⟩, hvhost, hexposed⟩
      | ok response =>
          refine h.grow
            (fun k _ => handled_of_replies hserving (by exact List.prefix_append _ _)) ?_
          rw [GetsAt, ServingThread.respond_accesses]
          refine hgets.imp ?_
          rintro access ⟨vhost, hvhost, hexposed⟩
          refine ⟨_, request, vhost, .inl ?_, hvhost, hexposed⟩
          simp [ServingThread.respond, ServingThread.send]

/--
Whatever a client sends, if it sends no NUL byte: an object that is served, listed
or run for it lies below the document root of the host that the request is for,
and the access file of its directory lets the request pass, unless the path of the
access file is too long for the kernel.
-/
theorem serveConnection_exposes (setting : ThreadSetting) (os : OsState) (reads : List ReadResult)
    (answers : List Answer) (hroots : ∀ vhost ∈ setting.config.virtualHosts, Rooted vhost)
    (hsent : ∀ data, .ok data ∈ reads → NUL ∉ data) :
    AllExposed setting os.accesses (serveConnection setting os reads answers) := by
  unfold serveConnection
  apply runConnection_parsed (I := RequestParser.Avoids NUL) (R := fun request => NUL ∉ request.uri)
    (P := fun t => t.stage = .serving ∧ AllExposed setting os.accesses t)
  · exact fun p hp => ⟨hp.uri, hp.getRequest⟩
  · rintro t request huri ⟨hserving, hall⟩ hkept
    refine ⟨?_, hall.answer hserving hroots huri⟩
    have hout := answerRequest_outcome setting t request
    change (answerRequest setting t request).2 = true at hkept
    change (answerRequest setting t request).1.stage = .serving
    generalize answerRequest setting t request = turn at hout hkept ⊢
    cases hout with
    | stopped => cases hkept
    | responded hrequest hhandled hcontent hopen howns hkeeps => exact (hkeeps.1 hkept).1
  · rintro t request huri ⟨hserving, hall⟩ -
    exact hall.answer hserving hroots huri
  · rintro t error ⟨hserving, hall⟩
    exact hall.grow (fun k _ => handled_of_replies hserving (by exact List.prefix_refl _))
      (.inl (t.send_accesses _ _))
  · exact fun t h => h.2
  · exact ⟨rfl, [], rfl, by simp⟩
  · exact RequestParser.avoids_fresh NUL
  · exact fun data p hmem hp => hp.feed (hsent data hmem)

end

def secretThread : ThreadSetting where
  config := { virtualHosts := [rootHost] }
  env _ := secretEnvironment
  accepting _ := true
  clientIp := []
  iteration := .inOrder

/-- The secret, asked for with the right name and password and then without any. -/
def secretReads : List ReadResult :=
  [.ok (ascii "GET /secret.txt HTTP/1.1\r\nAuthorization: Basic YTpi\r\n\r\nGET /sec"), .interrupted,
    .ok (ascii "ret.txt HTTP/1.1\r\n\r\n"), .ok []]

theorem serveConnection_exposes_secret :
    let t := serveConnection secretThread {} secretReads
      [.write (.ok 235), .sendfile (.ok 6), .write (.ok 122)]
    t.replies.map (fun reply => reply.response.statusCode) = [.Ok, .InvalidCredentials] ∧
      t.os.accesses = [.served 2] ∧ AllExposed secretThread [] t := by
  refine ⟨by decide +kernel, by decide +kernel, serveConnection_exposes secretThread {} secretReads
    _ ?_ ?_⟩
  · rintro vhost hmem
    obtain rfl := List.mem_singleton.1 hmem
    exact ⟨by decide, by decide⟩
  · intro data hmem
    simp only [secretReads, List.mem_cons, List.not_mem_nil, ReadResult.ok.injEq, reduceCtorEq,
      false_or, or_false] at hmem
    rcases hmem with rfl | rfl | rfl
    · decide
    · decide
    · decide

end CppHttpd
