import CppHttpd.Http.Connection.BrokenResponse
import CppHttpd.Http.Connection.RequestLoop
import CppHttpd.Http.Handlers.BodyFile

/-!
# A connection thread with its files

`handle_connection` together with the handler it calls and the descriptors that
are open.  A response may come with an open file; `write_response` sends a part
of it and closes it, also when it gives up on sending.
-/

namespace CppHttpd

open CppHttpd.Foundation

structure ThreadSetting where
  config : Config
  /-- What each request finds, in the order in which they are handled. -/
  env : Nat → Environment
  accepting : Nat → Bool
  clientIp : Bytes
  iteration : HttpResponse.Iteration

def ThreadSetting.clientRemoteAddr (setting : ThreadSetting) : Option Bytes :=
  if setting.clientIp = [] then none else some setting.clientIp

/-- A response of the handler, and what is in the file that came with it. -/
structure Reply where
  request : HttpRequest
  response : HttpResponse
  content : Bytes

def Reply.package (it : HttpResponse.Iteration) (reply : Reply) : ResponsePackage :=
  packageResponse it reply.request reply.response

/-- The file does not change while it is sent. -/
def Reply.files (reply : Reply) : OpenFiles := fun _ _ => { content := reply.content }

/-- What is in the file that was opened last. -/
def openedContent (fs : FileSystem) (os : OsState) : Bytes :=
  match os.accesses with
  | .served i :: _ => fs.content i
  | _ => []

inductive ServingStage where
  | serving
  /-- In a call of `write` or `sendfile`. -/
  | writing
  /-- The handler does not return. -/
  | stopped (why : NoReturn)
  deriving DecidableEq

structure ServingThread where
  os : OsState
  replies : List Reply := []
  written : List (Written Answer) := []
  /-- The files that `write_response` has closed. -/
  closed : List Fd := []
  answers : List Answer
  stage : ServingStage := .serving

namespace ServingThread

/-- `write_response`. -/
def send (t : ServingThread) (files : OpenFiles) (package : ResponsePackage) : ServingThread :=
  let written := writeResponse files package t.answers
  let closing := if written.waits then [] else package.bodyFd.toList
  { t with
    os := closing.foldl (fun os fd => os.closeFile fd) t.os
    written := t.written ++ [written]
    closed := t.closed ++ closing
    answers := written.rest
    stage := if written.waits then .writing else .serving }

def respond (t : ServingThread) (it : HttpResponse.Iteration) (os : OsState) (reply : Reply) :
    ServingThread :=
  { t with os, replies := t.replies ++ [reply] }.send reply.files (reply.package it)

/-- The files that responses came with. -/
def received (t : ServingThread) : List Fd := t.replies.filterMap fun reply => reply.response.bodyFd

end ServingThread

/-- A turn of the loop, without the wait for the request. -/
def answerRequest (setting : ThreadSetting) (t : ServingThread) (request : HttpRequest) :
    ServingThread × Bool :=
  let env := setting.env t.replies.length
  match handle env setting.config request (setting.accepting t.replies.length)
      setting.clientRemoteAddr t.os with
  | (.error e, os) => ({ t with os, stage := .stopped e }, false)
  | (.ok response, os) =>
      let reply : Reply := { request, response, content := openedContent env.fs os }
      let t := t.respond setting.iteration os reply
      (t, t.stage = .serving && !(reply.package setting.iteration).closeAfter)

def servingService (setting : ThreadSetting) : Service ServingThread where
  answer := answerRequest setting
  refuse t error :=
    t.send (fun _ _ => { content := [] })
      { bytes := errorResponse setting.iteration error, closeAfter := true }

/-- `handle_connection`, from the moment it is called. -/
def serveConnection (setting : ThreadSetting) (os : OsState) (reads : List ReadResult)
    (answers : List Answer) : ServingThread :=
  (runConnection (servingService setting) { os, answers } reads).1

/-! ## What a turn does -/

/-- The handler does not return, or its response is sent and the file behind it closed. -/
inductive AnswerOutcome (setting : ThreadSetting) (t : ServingThread) (request : HttpRequest) :
    ServingThread × Bool → Prop
  | stopped {os : OsState} {e : NoReturn}
      (hhandled : handle (setting.env t.replies.length) setting.config request
        (setting.accepting t.replies.length) setting.clientRemoteAddr t.os = (.error e, os))
      (hopen : (∀ x, e ≠ .throws x) → os.openFds = t.os.openFds) :
      AnswerOutcome setting t request ({ t with os, stage := .stopped e }, false)
  | responded {os : OsState} {reply : Reply} {keeps : Bool} (hrequest : reply.request = request)
      (hhandled : handle (setting.env t.replies.length) setting.config request
        (setting.accepting t.replies.length) setting.clientRemoteAddr t.os =
          (.ok reply.response, os))
      (hcontent : reply.content = openedContent (setting.env t.replies.length).fs os)
      (hopen : os.openFds = reply.response.bodyFd.toList ++ t.os.openFds)
      (howns : OwnsBody (setting.env t.replies.length) t.os reply.response)
      (hkeeps : keeps = true ↔
        (t.respond setting.iteration os reply).stage = .serving ∧ wantsClose request = false) :
      AnswerOutcome setting t request (t.respond setting.iteration os reply, keeps)

theorem answerRequest_outcome (setting : ThreadSetting) (t : ServingThread)
    (request : HttpRequest) :
    AnswerOutcome setting t request (answerRequest setting t request) := by
  have hend := handle_end (setting.env t.replies.length) setting.config request
    (setting.accepting t.replies.length) setting.clientRemoteAddr t.os
  have howns := handle_ownsBody (setting.env t.replies.length) setting.config request
    (setting.accepting t.replies.length) setting.clientRemoteAddr t.os
  unfold answerRequest
  cases hhandled : handle (setting.env t.replies.length) setting.config request
      (setting.accepting t.replies.length) setting.clientRemoteAddr t.os with
  | mk result os =>
      rw [hhandled] at hend howns
      simp only [hhandled]
      cases result with
      | error e => exact .stopped hhandled (hend.openFds rfl)
      | ok response =>
          obtain ⟨response', hok, hopen⟩ := hend.contained rfl
          cases hok
          refine @AnswerOutcome.responded _ _ _ _ ⟨request, response, _⟩ _ rfl hhandled rfl hopen
            (returns_ok.1 howns) (by simp [Reply.package])

/-! ## The files that are open -/

/-- Of the files that responses came with, all but `pending` are closed, each of them once. -/
structure Accounted (fds : List Fd) (t : ServingThread) (pending : List Fd) : Prop where
  openFds : (∀ e, t.stage ≠ .stopped (.throws e)) → t.os.openFds = pending ++ fds
  closed : t.closed ++ pending = t.received
  foreign : ∀ fd ∈ t.received, fd ∉ fds

/-- Only a thread in the middle of a response has a file still to close. -/
structure FilesClosed (fds : List Fd) (t : ServingThread) : Prop where
  intro ::
  exists_pending : ∃ pending, Accounted fds t pending ∧ pending.length ≤ 1 ∧
    (t.stage ≠ .writing → pending = [])

section

variable {fds : List Fd} {t : ServingThread}

theorem accounted_respond (h : Accounted fds t []) (hserving : t.stage = .serving)
    {env : Environment} (it : HttpResponse.Iteration) {os : OsState} {reply : Reply}
    (hopen : os.openFds = reply.response.bodyFd.toList ++ t.os.openFds)
    (howns : OwnsBody env t.os reply.response) :
    Accounted fds (t.respond it os reply)
      (if (t.respond it os reply).stage = .serving then [] else reply.response.bodyFd.toList) := by
  have hfds : t.os.openFds = fds := h.openFds (by simp [hserving])
  have hbody : (reply.package it).bodyFd = reply.response.bodyFd := by
    unfold Reply.package packageResponse
    cases hfd : reply.response.bodyFd <;> simp [HttpResponse.setHeader, hfd]
  have hreceived : (t.respond it os reply).received =
      t.closed ++ reply.response.bodyFd.toList := by
    have hbefore := h.closed
    rw [List.append_nil] at hbefore
    rw [hbefore]
    cases hfd : reply.response.bodyFd <;>
      simp [ServingThread.respond, ServingThread.send, ServingThread.received, hfd]
  have hforeign : ∀ fd ∈ (t.respond it os reply).received, fd ∉ fds := by
    rw [hreceived]
    intro fd hmem
    rcases List.mem_append.1 hmem with hold | hnew
    · have hclosed := h.closed
      rw [List.append_nil] at hclosed
      exact h.foreign fd (hclosed ▸ hold)
    · rw [← hfds]
      exact (howns fd (by simpa using hnew)).fresh
  unfold ServingThread.respond ServingThread.send at *
  cases hwaits : (writeResponse reply.files (reply.package it) t.answers).waits with
  | true =>
      simp only [hwaits, if_true, List.foldl_nil, List.append_nil, hbody] at *
      exact ⟨fun _ => by simp [hopen, hfds], by simpa using hreceived.symm, hforeign⟩
  | false =>
      simp only [hwaits, Bool.false_eq_true, if_false, hbody] at *
      refine ⟨fun _ => ?_, by simpa using hreceived.symm, hforeign⟩
      cases hfd : reply.response.bodyFd <;> simp [hopen, hfds, hfd, OsState.closeFile]

theorem filesClosed_of_accounted (h : Accounted fds t []) : FilesClosed fds t :=
  ⟨[], h, Nat.zero_le _, fun _ => rfl⟩

/--
Whatever the requests are, and whatever the calls on the socket return: before
every request just the descriptors are open that were open when the connection
was accepted, and a file is closed once, behind its response.
-/
theorem serveConnection_filesClosed (setting : ThreadSetting) (os : OsState)
    (reads : List ReadResult) (answers : List Answer) :
    FilesClosed os.openFds (serveConnection setting os reads answers) := by
  unfold serveConnection
  apply runConnection_invariant
    (P := fun t => t.stage = .serving ∧ Accounted os.openFds t [])
  · rintro t request ⟨hserving, haccounted⟩ hkept
    have hout := answerRequest_outcome setting t request
    change (answerRequest setting t request).2 = true at hkept
    change (answerRequest setting t request).1.stage = .serving ∧
      Accounted _ (answerRequest setting t request).1 []
    generalize answerRequest setting t request = turn at hout hkept ⊢
    cases hout with
    | stopped => cases hkept
    | responded hrequest hhandled hcontent hopen howns hkeeps =>
        obtain ⟨hstage, -⟩ := hkeeps.1 hkept
        have hnext := accounted_respond haccounted hserving setting.iteration hopen howns
        rw [if_pos hstage] at hnext
        exact ⟨hstage, hnext⟩
  · rintro t request ⟨hserving, haccounted⟩ -
    have hout := answerRequest_outcome setting t request
    change FilesClosed _ (answerRequest setting t request).1
    generalize answerRequest setting t request = turn at hout ⊢
    cases hout with
    | stopped hhandled hopen =>
        refine filesClosed_of_accounted ⟨fun hstage => ?_, haccounted.closed, haccounted.foreign⟩
        have hfds := haccounted.openFds (by simp [hserving])
        exact (hopen fun e he => hstage e (he ▸ rfl)).trans hfds
    | @responded os' reply keeps hrequest hhandled hcontent hopen howns hkeeps =>
        have hnext := accounted_respond haccounted hserving setting.iteration hopen howns
        refine ⟨_, hnext, ?_, fun hstage => ?_⟩
        · split_ifs
          · exact Nat.zero_le _
          · cases reply.response.bodyFd <;> simp
        · have hserving' : (t.respond setting.iteration os' reply).stage = .serving := by
            revert hstage
            simp only [ServingThread.respond, ServingThread.send]
            split_ifs <;> simp
          rw [if_pos hserving']
  · rintro t error ⟨hserving, haccounted⟩
    refine filesClosed_of_accounted ⟨fun _ => ?_, ?_, ?_⟩
    · have hfds := haccounted.openFds (by simp [hserving])
      simpa [servingService, ServingThread.send] using hfds
    · have hclosed := haccounted.closed
      simpa [servingService, ServingThread.send, ServingThread.received] using hclosed
    · exact haccounted.foreign
  · rintro t ⟨-, haccounted⟩
    exact filesClosed_of_accounted haccounted
  · exact ⟨rfl, fun _ => rfl, rfl, by simp [ServingThread.received]⟩

end

end CppHttpd
