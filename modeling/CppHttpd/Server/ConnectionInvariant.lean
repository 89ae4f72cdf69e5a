import CppHttpd.Http.Handlers.BodyFile
import CppHttpd.Server.EventLoopWorker

/-!
# The connections of an event-loop worker are in order

Between two iterations the poller watches the connections for what their phases
wait for, a connection that reads has nothing left of a response, and every file
that a response came with has one owner until it is closed.
-/

namespace CppHttpd

open CppHttpd.Foundation RequestParser

/-! ## One connection -/

structure ConnState.InBounds (state : ConnState) : Prop where
  offset : state.writeOffset ≤ state.writeBuf.length
  size : 0 ≤ state.sendfileSize

structure ConnState.Idle (state : ConnState) : Prop where
  writeBuf : state.writeBuf = []
  writeOffset : state.writeOffset = 0
  sendfileFd : state.sendfileFd = none

/-- Of the state that a part of `process_writable` leaves, whether or not it returns there. -/
def Leaves (P : ConnState → Prop) : Except (Bool × ConnState) ConnState → Prop
  | .error (_, state) => P state
  | .ok state => P state

theorem writePending_leaves {state : ConnState} (h : state.InBounds) {write : SendResult}
    (hwithin : write.Within (state.writeBuf.length - state.writeOffset)) :
    Leaves (fun state' => state'.InBounds ∧ state'.sendfileFd = state.sendfileFd ∧
      state'.sendfileSize = state.sendfileSize) (writePending state write) := by
  unfold writePending
  split_ifs with hpending
  · cases write with
    | again => exact ⟨h, rfl, rfl⟩
    | failed => exact ⟨h, rfl, rfl⟩
    | sent n positive =>
        have hoffset := h.offset
        have hle : n ≤ state.writeBuf.length - state.writeOffset := hwithin
        dsimp only
        split_ifs <;> exact ⟨⟨by dsimp only; omega, h.size⟩, rfl, rfl⟩
  · exact ⟨h, rfl, rfl⟩

theorem sendBody_leaves {results : List SendResult} {state : ConnState} (h : state.InBounds)
    (hwithin : SendfilesWithin state.sendfileSize results) :
    Leaves (fun state' => state'.InBounds ∧ state.sendfileFd.toList =
      sendBodyCloses state results ++ state'.sendfileFd.toList) (sendBody state results) := by
  induction results generalizing state with
  | nil =>
      unfold sendBody sendBodyCloses
      split_ifs
      · exact ⟨h, rfl⟩
      · exact ⟨⟨h.offset, h.size⟩, (List.append_nil _).symm⟩
  | cons result results ih =>
      unfold sendBody sendBodyCloses
      split_ifs
      · cases result with
        | again => exact ⟨h, rfl⟩
        | failed => exact ⟨⟨h.offset, h.size⟩, (List.append_nil _).symm⟩
        | sent n positive =>
            obtain ⟨hle, hrest⟩ := hwithin
            have hsize : 0 ≤ state.sendfileSize - n := by omega
            have hbounds : (state.bodySent n).InBounds := ⟨h.offset, hsize⟩
            exact ih hbounds hrest
      · exact ⟨⟨h.offset, h.size⟩, (List.append_nil _).symm⟩

theorem afterWriting_leaves {W : Type*} {w : W} {state : ConnState} (h : state.InBounds) :
    let turn : ConnTurn W :=
      if state.closeAfterWrite then { close := true, state, world := w }
      else { close := false, state := (resetConnToReading state).1, world := w,
             modify := some (resetConnToReading state).2 }
    turn.state.InBounds ∧
      state.sendfileFd.toList = afterWritingCloses state ++ turn.state.sendfileFd.toList := by
  unfold afterWritingCloses
  split_ifs
  · exact ⟨h, rfl⟩
  · exact ⟨⟨le_rfl, Int.le_refl 0⟩, (List.append_nil _).symm⟩

theorem processWritable_leaves {W : Type*} (w : W) {state : ConnState} (h : state.InBounds)
    {write : SendResult} {sendfiles : List SendResult}
    (hwrite : write.Within (state.writeBuf.length - state.writeOffset))
    (hsendfiles : SendfilesWithin state.sendfileSize sendfiles) :
    (processWritable w state write sendfiles).state.InBounds ∧
      state.sendfileFd.toList = processWritableCloses state write sendfiles ++
        (processWritable w state write sendfiles).state.sendfileFd.toList := by
  have hpending := writePending_leaves h hwrite
  unfold processWritable processWritableCloses
  cases hwritten : writePending state write with
  | error r =>
      rw [hwritten] at hpending
      obtain ⟨hbounds, hfd, -⟩ := hpending
      exact ⟨hbounds, congrArg Option.toList hfd.symm⟩
  | ok state₁ =>
      rw [hwritten] at hpending
      obtain ⟨hbounds, hfd, hsize⟩ := hpending
      rw [← hfd]
      rw [← hsize] at hsendfiles
      dsimp only [bind, Except.bind]
      split_ifs with hbody
      · have hsent := sendBody_leaves hbounds hsendfiles
        cases hresult : sendBody state₁ sendfiles with
        | error r =>
            rw [hresult] at hsent
            exact hsent
        | ok state₂ =>
            rw [hresult] at hsent
            obtain ⟨hbounds₂, hcloses⟩ := hsent
            have hafter := afterWriting_leaves (w := w) hbounds₂
            rw [List.append_assoc, ← hafter.2]
            exact ⟨hafter.1, hcloses⟩
      · exact afterWriting_leaves hbounds

/-! ## One event -/

/-- What handling an event does to a connection, `fds` being open before it. -/
structure TurnSound {W : Type*} (state : ConnState) (removing : Prop) (closes fds : List Fd)
    (turn : ConnTurn W) : Prop where
  fd : turn.state.fd = state.fd
  bounds : turn.state.InBounds
  idle : turn.state.phase = .reading → turn.state.Idle ∧
    (turn.state.parser.needMore = true ∨ removing ∨ turn.close = true)
  modify : turn.modify.getD state.phase.interest = turn.state.phase.interest
  ledger : state.sendfileFd.toList ++ turn.actions.flatMap Action.bodies =
    closes ++ turn.state.sendfileFd.toList
  fresh : ∀ fd, turn.state.sendfileFd = some fd → state.sendfileFd = some fd ∨ fd ∉ fds

theorem processWritable_turnSound {W : Type*} (w : W) {state : ConnState}
    (hbounds : state.InBounds) (hwriting : state.phase = .writing) (removing : Prop)
    {write : SendResult} {sendfiles : List SendResult}
    (hwrite : write.Within (state.writeBuf.length - state.writeOffset))
    (hsendfiles : SendfilesWithin state.sendfileSize sendfiles) (fds : List Fd) :
    TurnSound state removing (processWritableCloses state write sendfiles) fds
      (processWritable w state write sendfiles) := by
  obtain ⟨hbounds', hcloses⟩ := processWritable_leaves w hbounds hwrite hsendfiles
  have hfd := processWritable_fd w state write sendfiles
  have hout := processWritable_outcome w state write sendfiles
  generalize processWritableCloses state write sendfiles = closes at hcloses
  generalize processWritable w state write sendfiles = turn at hbounds' hcloses hfd hout
  have hactions : turn.actions = [] := by cases hout <;> rfl
  refine ⟨hfd, hbounds', ?_, ?_, by rw [hactions]; simpa using hcloses, fun fd hsome => .inl ?_⟩
  · have hnot {state' : ConnState} (course : SameCourse state state') :
        state'.phase ≠ .reading := by
      rw [course.phase, hwriting]
      decide
    cases hout with
    | waits course => exact fun hreading => absurd hreading (hnot course)
    | breaks course _ => exact fun hreading => absurd hreading (hnot course)
    | closes course _ => exact fun hreading => absurd hreading (hnot course)
    | resets course _ => exact fun _ => ⟨⟨rfl, rfl, rfl⟩, .inl rfl⟩
  · cases hout with
    | waits course => exact congrArg Phase.interest course.phase.symm
    | breaks course _ => exact congrArg Phase.interest course.phase.symm
    | closes course _ => exact congrArg Phase.interest course.phase.symm
    | resets course _ => rfl
  · have hmem : fd ∈ state.sendfileFd.toList := by simp [hcloses, hsome]
    simpa using hmem

/-- What the contract of the handler comes to in the package that is sent. -/
theorem requestHandler_package (setting : EventWorkerSetting) (answers : EventAnswers)
    (os : OsState) (clientIp : Bytes) (request : HttpRequest) {package : ResponsePackage}
    {os' : OsState}
    (h : processRequest (requestHandler setting answers) (some os) clientIp request =
      (package, some os')) :
    0 ≤ package.bodyFdSize ∧ ∀ fd, package.bodyFd = some fd → fd ∉ os.openFds := by
  have howns := handle_ownsBody answers.env setting.config request answers.accepting
    (if clientIp = [] then none else some clientIp) os
  unfold processRequest requestHandler at h
  dsimp only at h
  revert h howns
  cases handle answers.env setting.config request answers.accepting
      (if clientIp = [] then none else some clientIp) os with
  | mk result os₁ =>
      cases result with
      | error e =>
          intro h
          cases (Prod.mk.inj h).2
      | ok response =>
          intro h howns
          obtain ⟨rfl, -⟩ := Prod.mk.inj h
          have hbody : (response.setHeader "Connection" (if wantsClose request then ascii "close"
              else ascii "keep-alive")).bodyFd = response.bodyFd := rfl
          unfold packageResponse
          cases hfd : response.bodyFd with
          | none =>
              simp only [hbody, hfd]
              exact ⟨Int.le_refl 0, nofun⟩
          | some fd =>
              have hfile := howns response rfl fd hfd
              simp only [hbody, hfd]
              refine ⟨hfile.size, fun fd' hfd' => ?_⟩
              cases hfd'
              exact hfile.fresh

theorem processReadable_turnSound {setting : EventWorkerSetting} {answers : EventAnswers}
    {os : OsState} {state : ConnState} (hbounds : state.InBounds) (hidle : state.Idle)
    {removing : Prop}
    (hparser : state.parser.needMore = true ∨ removing)
    (hreturns : (processReadable (requestHandler setting answers) (some os) state
      answers.read).world.isSome = true) :
    TurnSound state removing [] os.openFds
      (processReadable (requestHandler setting answers) (some os) state answers.read) := by
  have hstays (close : Bool) : TurnSound state removing [] os.openFds
      ({ close, state, world := some os } : ConnTurn (Option OsState)) :=
    ⟨rfl, hbounds, fun _ => ⟨hidle, hparser.imp_right .inl⟩, rfl, List.append_nil _,
      fun fd hfd => .inl hfd⟩
  cases hread : answers.read with
  | again => exact hstays false
  | interrupted => exact hstays true
  | failed => exact hstays true
  | ok data =>
      rw [hread] at hreturns
      have hout := processReadable_outcome (requestHandler setting answers) (some os) state data
      generalize processReadable (requestHandler setting answers) (some os) state (.ok data) =
        turn at hreturns hout
      cases hout with
      | ended hdata => exact hstays true
      | @answers state' package world hdata hdone hprocess hstate =>
          subst hstate
          obtain ⟨os', rfl⟩ := Option.isSome_iff_exists.1 hreturns
          obtain ⟨hsize, hfresh⟩ := requestHandler_package setting answers os _ _ hprocess
          refine ⟨rfl, ⟨Nat.zero_le _, hsize⟩, nofun, rfl, ?_, fun fd hfd => .inr (hfresh fd hfd)⟩
          simp [hidle.sendfileFd, Action.bodies, ConnState.answering]
      | refuses hdata herr hstate =>
          subst hstate
          exact ⟨rfl, ⟨hbounds.offset, hbounds.size⟩, fun _ => ⟨⟨hidle.writeBuf,
            hidle.writeOffset, hidle.sendfileFd⟩, .inr (.inr rfl)⟩, rfl, List.append_nil _,
            fun fd hfd => .inl hfd⟩
      | waits hdata hdone herr hstate =>
          subst hstate
          have hmore : (state.parser.feed data).needMore = true := by
            simp [needMore, hasRequest, hasError, hdone, herr]
          exact ⟨rfl, ⟨hbounds.offset, hbounds.size⟩, fun _ => ⟨⟨hidle.writeBuf,
            hidle.writeOffset, hidle.sendfileFd⟩, .inl hmore⟩, rfl, List.append_nil _,
            fun fd hfd => .inl hfd⟩

/-! ## The worker -/

structure ConnSound (removing : Prop) (fd : Fd) (state : ConnState) : Prop where
  fd : state.fd = fd
  bounds : state.InBounds
  idle : state.phase = .reading → state.Idle ∧ (state.parser.needMore = true ∨ removing)

namespace EventWorker

variable {setting : EventWorkerSetting} {s s' : EventWorker}

/-- What the poller is to watch an fd for. -/
def watched (setting : EventWorkerSetting) (s : EventWorker) (fd : Fd) : Option Interest :=
  if fd = setting.wakePipe ∨ fd = setting.shutdownPipe then some Phase.reading.interest
  else (s.conns.lookup fd).map fun state => state.phase.interest

def Removing (s : EventWorker) (fd : Fd) : Prop :=
  match s.stage with
  | .serving _ _ toRemove => fd ∈ toRemove
  | _ => False

structure Sound (setting : EventWorkerSetting) (s : EventWorker) : Prop where
  running : s.stage ≠ .exited
  descriptors : (s.openFds setting).Nodup
  poller : ∀ fd, s.poller fd = s.watched setting fd
  conns : ∀ fd state, s.conns.lookup fd = some state → ConnSound (s.Removing fd) fd state
  ledger : s.returned.Perm (s.closed ++ s.bodies)

theorem sound_start : Sound setting (start setting) where
  running := nofun
  descriptors := by simp [openFds, bodies, start, setting.pipes_ne]
  poller fd := by
    unfold watched start
    dsimp only
    by_cases hshutdown : fd = setting.shutdownPipe
    · simp [hshutdown]
    · by_cases hwake : fd = setting.wakePipe
      · simp [hwake, setting.pipes_ne]
      · simp [hshutdown, hwake]
  conns fd state hlookup := by cases hlookup
  ledger := .refl _

/-- A stage that forgets no fd that is to be removed. -/
theorem Sound.of_stage (h : s.Sound setting) {stage : EventWorkerStage}
    (hrunning : stage ≠ .exited)
    (hremoving : ∀ fd ∈ s.conns, s.Removing fd → ({ s with stage } : EventWorker).Removing fd) :
    ({ s with stage } : EventWorker).Sound setting where
  running := hrunning
  descriptors := h.descriptors
  poller := h.poller
  conns fd state hlookup := by
    have hconn := h.conns fd state hlookup
    have hmem : fd ∈ s.conns := AList.lookup_isSome.1 (by rw [hlookup]; rfl)
    exact ⟨hconn.fd, hconn.bounds, fun hreading =>
      (hconn.idle hreading).imp_right fun hparser => hparser.imp_right (hremoving fd hmem)⟩
  ledger := h.ledger

theorem Sound.not_pipe (h : s.Sound setting) {fd : Fd} (hmem : fd ∈ s.conns) :
    ¬ (fd = setting.wakePipe ∨ fd = setting.shutdownPipe) := by
  have hnodup := h.descriptors
  unfold openFds at hnodup
  rw [List.nodup_cons, List.nodup_cons] at hnodup
  obtain ⟨hwake, hshutdown, -⟩ := hnodup
  have hin : fd ∈ s.conns.keys ++ s.bodies := List.mem_append_left _ hmem
  rintro (rfl | rfl)
  · exact hwake (List.mem_cons_of_mem _ hin)
  · exact hshutdown hin

/-- Everything but the file of the connection `fd`, `rest` being the other connections. -/
def otherFds (setting : EventWorkerSetting) (fd : Fd) (rest : AList fun _ : Fd => ConnState) :
    List Fd :=
  (setting.wakePipe :: setting.shutdownPipe :: fd :: rest.keys) ++
    holdings (fun state : ConnState => state.sendfileFd.toList) rest

theorem openFds_perm (setting : EventWorkerSetting) {fd : Fd} {state : ConnState}
    (h : s.conns.lookup fd = some state) :
    (s.openFds setting).Perm
      (state.sendfileFd.toList ++ otherFds setting fd (s.conns.erase fd)) := by
  have hmem : fd ∈ s.conns := AList.lookup_isSome.1 (by rw [h]; rfl)
  have hboth := (keys_perm hmem).append
    (holdings_perm (fun state : ConnState => state.sendfileFd.toList) h)
  exact ((hboth.cons _).cons _).trans (List.perm_append_comm_assoc
    (setting.wakePipe :: setting.shutdownPipe :: fd :: (s.conns.erase fd).keys) _ _)

theorem Sound.poller_eq (h : s.Sound setting) {fd : Fd} {state : ConnState}
    (hlookup : s.conns.lookup fd = some state) : s.poller fd = some state.phase.interest := by
  have hpipe := h.not_pipe (AList.lookup_isSome.1 (by rw [hlookup]; rfl))
  rw [h.poller, watched, if_neg hpipe, hlookup]
  rfl

theorem modifyPoller_eq {fd : Fd} {interest : Interest} (h : s.poller fd = some interest)
    (new : Option Interest) :
    s.modifyPoller fd new = Function.update s.poller fd (some (new.getD interest)) := by
  cases new with
  | none =>
      rw [Option.getD_none, ← h, Function.update_eq_self]
      rfl
  | some new => exact if_pos (by rw [h]; rfl)

section

variable {W : Type*} {events : List PollEvent} {now : Int} {toRemove : List Fd} {fd : Fd}
  {state : ConnState} {turn : ConnTurn W} {closes fds : List Fd}

theorem Sound.finish_descriptors (h : s.Sound setting)
    (hlookup : s.conns.lookup fd = some state) (hfds : s.openFds setting ⊆ fds)
    (hturn : TurnSound state (s.Removing fd) closes fds turn) :
    ((s.finish fd turn closes events now toRemove).openFds setting).Nodup := by
  have hbefore := (openFds_perm setting hlookup).nodup_iff.1 h.descriptors
  have hafter := openFds_perm setting
    (s := s.finish fd turn closes events now toRemove) (AList.lookup_insert s.conns)
  rw [show (s.finish fd turn closes events now toRemove).conns =
    s.conns.insert fd turn.state from rfl, erase_insert] at hafter
  rw [hafter.nodup_iff]
  cases hsend : turn.state.sendfileFd with
  | none => exact hbefore.of_append_right
  | some f =>
      rcases hturn.fresh f hsend with hsame | hfresh
      · rwa [hsame] at hbefore
      · refine List.nodup_cons.2 ⟨fun hmem => hfresh (hfds ?_), hbefore.of_append_right⟩
        exact (openFds_perm setting hlookup).mem_iff.2 (List.mem_append_right _ hmem)

theorem Sound.finish_poller (h : s.Sound setting) (hlookup : s.conns.lookup fd = some state)
    (hturn : TurnSound state (s.Removing fd) closes fds turn) (fd' : Fd) :
    (s.finish fd turn closes events now toRemove).poller fd' =
      (s.finish fd turn closes events now toRemove).watched setting fd' := by
  have hfd : turn.state.fd = fd := hturn.fd.trans (h.conns fd state hlookup).fd
  have hpipe := h.not_pipe (AList.lookup_isSome.1 (by rw [hlookup]; rfl))
  have hmodified := modifyPoller_eq (h.poller_eq hlookup) turn.modify
  change s.modifyPoller turn.state.fd turn.modify fd' = _
  rw [hfd, hmodified, hturn.modify]
  unfold watched finish
  by_cases hsame : fd' = fd
  · subst hsame
    rw [Function.update_self, if_neg hpipe, AList.lookup_insert]
    rfl
  · rw [Function.update_of_ne hsame, AList.lookup_insert_ne hsame]
    exact h.poller fd'

theorem Sound.finish_conns (h : s.Sound setting) (hlookup : s.conns.lookup fd = some state)
    (hremoving : ∀ fd, s.Removing fd → fd ∈ toRemove)
    (hturn : TurnSound state (s.Removing fd) closes fds turn) {fd' : Fd} {state' : ConnState}
    (hlookup' : (s.finish fd turn closes events now toRemove).conns.lookup fd' = some state') :
    ConnSound ((s.finish fd turn closes events now toRemove).Removing fd') fd' state' := by
  have hkept {f : Fd} (hf : s.Removing f) :
      (s.finish fd turn closes events now toRemove).Removing f := by
    have hmem := hremoving f hf
    simp only [finish, Removing]
    split_ifs
    · exact List.mem_append_left _ hmem
    · exact hmem
  by_cases hsame : fd' = fd
  · subst hsame
    have hstate : turn.state = state' :=
      Option.some.inj ((AList.lookup_insert s.conns).symm.trans hlookup')
    subst hstate
    refine ⟨hturn.fd.trans (h.conns fd' state hlookup).fd, hturn.bounds, fun hreading => ?_⟩
    obtain ⟨hidle, hmore | hbefore | hclose⟩ := hturn.idle hreading
    · exact ⟨hidle, .inl hmore⟩
    · exact ⟨hidle, .inr (hkept hbefore)⟩
    · exact ⟨hidle, .inr (by simp [finish, Removing, hclose])⟩
  · have hconn := h.conns fd' state' ((AList.lookup_insert_ne hsame).symm.trans hlookup')
    exact ⟨hconn.fd, hconn.bounds, fun hreading =>
      (hconn.idle hreading).imp_right fun hparser => hparser.imp_right hkept⟩

theorem Sound.finish_ledger (h : s.Sound setting) (hlookup : s.conns.lookup fd = some state)
    (hturn : TurnSound state (s.Removing fd) closes fds turn) :
    (s.returned ++ turn.actions.flatMap Action.bodies).Perm
      (s.closed ++ closes ++ (s.finish fd turn closes events now toRemove).bodies) := by
  have hbodies : (s.finish fd turn closes events now toRemove).bodies =
      turn.state.sendfileFd.toList ++
        holdings (fun state : ConnState => state.sendfileFd.toList) (s.conns.erase fd) :=
    holdings_insert
  rw [hbodies]
  apply List.perm_iff_count.2
  intro f
  have hreturned := h.ledger.count_eq f
  have howned := (holdings_perm (fun state : ConnState => state.sendfileFd.toList)
    hlookup).count_eq f
  have hmoved := congrArg (List.count f) hturn.ledger
  unfold bodies at hreturned
  simp only [List.count_append] at hreturned howned hmoved ⊢
  omega

theorem Sound.finish (h : s.Sound setting) (hlookup : s.conns.lookup fd = some state)
    (hremoving : ∀ fd, s.Removing fd → fd ∈ toRemove) (hfds : s.openFds setting ⊆ fds)
    (hturn : TurnSound state (s.Removing fd) closes fds turn) :
    (s.finish fd turn closes events now toRemove).Sound setting where
  running := nofun
  descriptors := h.finish_descriptors hlookup hfds hturn
  poller := h.finish_poller hlookup hturn
  conns _ _ := h.finish_conns hlookup hremoving hturn
  ledger := h.finish_ledger hlookup hturn

end

theorem Sound.handleEvent (h : s.Sound setting) {answers : EventAnswers} {event : PollEvent}
    {events : List PollEvent} {now : Int} {toRemove : List Fd}
    (hremoving : ∀ fd, s.Removing fd → fd ∈ toRemove)
    (hstep : s.handleEvent setting answers event events now toRemove = some s') :
    s'.Sound setting := by
  have hnext : ({ s with stage := .serving events now toRemove } : EventWorker).Sound setting :=
    h.of_stage nofun fun fd _ => hremoving fd
  unfold EventWorker.handleEvent at hstep
  dsimp only at hstep
  split at hstep
  · cases hstep
    exact hnext
  · split at hstep
    case h_1 =>
      cases hstep
      exact hnext
    case h_2 state hlookup =>
      have hconn := h.conns _ _ hlookup
      split_ifs at hstep with hreads hread hwrites hwrite
      · cases hstep
        obtain ⟨hidle, hparser⟩ := hconn.idle hreads.1
        exact h.finish hlookup hremoving (List.subset_append_left _ _)
          (processReadable_turnSound hconn.bounds hidle hparser hread.2)
      · cases hstep
        exact h.finish hlookup hremoving (List.Subset.refl _)
          (processWritable_turnSound () hconn.bounds hwrites.1 _ hwrite.1 hwrite.2 _)
      · cases hstep
        exact hnext

theorem Sound.addConn (h : s.Sound setting) {fd : Fd} (hfresh : fd ∉ s.openFds setting)
    (clientIp : Bytes) (now : Int) : (s.addConn fd clientIp now).Sound setting := by
  have hnot : fd ∉ s.conns := fun hmem =>
    hfresh (List.mem_cons_of_mem _ (List.mem_cons_of_mem _ (List.mem_append_left _ hmem)))
  have hbodies : (s.addConn fd clientIp now).bodies = s.bodies := by
    unfold bodies EventWorker.addConn
    rw [holdings_insert, holdings_erase_of_notMem hnot]
    rfl
  refine ⟨h.running, ?_, fun fd' => ?_, fun fd' state hlookup => ?_, ?_⟩
  · have hkeys : (s.addConn fd clientIp now).conns.keys = fd :: s.conns.keys := by
      simp [EventWorker.addConn, AList.keys_insert, List.erase_of_not_mem hnot]
    have hopen : ((s.addConn fd clientIp now).openFds setting).Perm
        (fd :: s.openFds setting) := by
      unfold openFds
      rw [hkeys, hbodies]
      exact ((List.Perm.swap _ _ _).cons _).trans (List.Perm.swap _ _ _)
    exact hopen.nodup_iff.2 (List.nodup_cons.2 ⟨hfresh, h.descriptors⟩)
  · have hpipe : ¬ (fd = setting.wakePipe ∨ fd = setting.shutdownPipe) := by
      rintro (rfl | rfl)
      · exact hfresh List.mem_cons_self
      · exact hfresh (List.mem_cons_of_mem _ List.mem_cons_self)
    unfold EventWorker.addConn watched
    by_cases hsame : fd' = fd
    · subst hsame
      simp [hpipe]
    · simp only [Function.update_of_ne hsame, AList.lookup_insert_ne hsame]
      exact h.poller fd'
  · unfold EventWorker.addConn at hlookup
    by_cases hsame : fd' = fd
    · subst hsame
      rw [AList.lookup_insert] at hlookup
      cases hlookup
      exact ⟨rfl, ⟨le_rfl, Int.le_refl 0⟩, fun _ => ⟨⟨rfl, rfl, rfl⟩, .inl rfl⟩⟩
    · rw [AList.lookup_insert_ne hsame] at hlookup
      exact h.conns fd' state hlookup
  · rw [hbodies]
    exact h.ledger

theorem Sound.removeConn (h : s.Sound setting) (fd : Fd) : (s.removeConn fd).Sound setting := by
  unfold EventWorker.removeConn
  cases hlookup : s.conns.lookup fd with
  | none => exact h
  | some state =>
      have hpipe := h.not_pipe (AList.lookup_isSome.1 (by rw [hlookup]; rfl))
      refine ⟨h.running, ?_, fun fd' => ?_, fun fd' state' hlookup' => ?_, ?_⟩
      · have hothers := ((openFds_perm setting hlookup).nodup_iff.1 h.descriptors).of_append_right
        exact hothers.sublist (((List.sublist_cons_self fd _).cons_cons _).cons_cons _)
      · unfold watched
        by_cases hsame : fd' = fd
        · subst hsame
          simp [hpipe]
        · simp only [Function.update_of_ne hsame, AList.lookup_erase_ne hsame]
          exact h.poller fd'
      · have hsame : fd' ≠ fd := by
          rintro rfl
          rw [AList.lookup_erase] at hlookup'
          cases hlookup'
        rw [AList.lookup_erase_ne hsame] at hlookup'
        exact h.conns fd' state' hlookup'
      · apply h.ledger.trans
        have hperm := (holdings_perm (fun state : ConnState => state.sendfileFd.toList)
          hlookup).append_left s.closed
        rwa [← List.append_assoc] at hperm

theorem removeConn_lookup (s : EventWorker) (fd fd' : Fd) :
    (s.removeConn fd).conns.lookup fd' = if fd' = fd then none else s.conns.lookup fd' := by
  unfold EventWorker.removeConn
  cases hlookup : s.conns.lookup fd with
  | none =>
      split_ifs with hsame
      · rw [hsame, hlookup]
      · rfl
  | some state =>
      split_ifs with hsame
      · rw [hsame]
        exact AList.lookup_erase _ _
      · exact AList.lookup_erase_ne hsame

theorem removeConn_stage (s : EventWorker) (fd : Fd) : (s.removeConn fd).stage = s.stage := by
  unfold EventWorker.removeConn
  cases s.conns.lookup fd <;> rfl

theorem Sound.removeConns (h : s.Sound setting) (toRemove : List Fd) :
    (toRemove.foldl EventWorker.removeConn s).Sound setting := by
  induction toRemove generalizing s with
  | nil => exact h
  | cons fd rest ih => exact ih (h.removeConn fd)

/-- An fd may be listed more than once; it is not in the map any more the second time. -/
theorem removeConns_lookup (toRemove : List Fd) (s : EventWorker) (fd : Fd) :
    (toRemove.foldl EventWorker.removeConn s).conns.lookup fd =
      if fd ∈ toRemove then none else s.conns.lookup fd := by
  induction toRemove generalizing s with
  | nil => rfl
  | cons first rest ih =>
      rw [List.foldl_cons, ih, removeConn_lookup]
      by_cases hfirst : fd = first
      · simp [hfirst]
      · simp [hfirst]

theorem removeConns_stage (toRemove : List Fd) (s : EventWorker) :
    (toRemove.foldl EventWorker.removeConn s).stage = s.stage := by
  induction toRemove generalizing s with
  | nil => rfl
  | cons fd rest ih => rw [List.foldl_cons, ih, removeConn_stage]

theorem Sound.sweep (h : s.Sound setting) {toRemove : List Fd}
    (hremoving : ∀ fd, s.Removing fd → fd ∈ toRemove) (now : Int) :
    (s.sweep setting now toRemove).Sound setting := by
  refine (h.removeConns _).of_stage nofun fun fd hmem hremove => ?_
  have hbefore : s.Removing fd := by
    unfold Removing at hremove ⊢
    rwa [removeConns_stage] at hremove
  have hlookup := AList.lookup_isSome.2 hmem
  rw [removeConns_lookup, if_pos (List.mem_append_left _ (hremoving fd hbefore))] at hlookup
  cases hlookup

/-! ## All runs -/

/-- After the last iteration only the account is left. -/
inductive InOrder (setting : EventWorkerSetting) (s : EventWorker) : Prop
  | running (h : s.Sound setting)
  | exited (hstage : s.stage = .exited) (hledger : s.returned.Perm s.closed)

theorem InOrder.sound (h : s.InOrder setting) (hrunning : s.stage ≠ .exited) :
    s.Sound setting := by
  cases h with
  | running hsound => exact hsound
  | exited hstage => exact absurd hstage hrunning

theorem InOrder.step (h : s.InOrder setting) {label : EventWorkerLabel}
    (hstep : s.step setting label = some s') : s'.InOrder setting := by
  unfold EventWorker.step at hstep
  split at hstep
  case h_1 events hstage =>
    have hsound := h.sound (by rw [hstage]; nofun)
    split_ifs at hstep
    · cases hstep
      exact .exited rfl hsound.ledger
    · cases hstep
      refine .running (hsound.of_stage nofun fun fd _ hremove => ?_)
      simp [Removing, hstage] at hremove
  case h_2 fd clientIp now events hstage =>
    have hsound := h.sound (by rw [hstage]; nofun)
    split_ifs at hstep with hfresh
    cases hstep
    exact .running (hsound.addConn hfresh.2 clientIp now)
  case h_3 now events hstage =>
    cases hstep
    refine .running ((h.sound (by rw [hstage]; nofun)).of_stage nofun fun fd _ hremove => ?_)
    simp [Removing, hstage] at hremove
  case h_4 answers event events now toRemove hstage =>
    have hsound := h.sound (by rw [hstage]; nofun)
    exact .running (hsound.handleEvent (fun fd => by simp [Removing, hstage]) hstep)
  case h_5 now toRemove hstage =>
    have hsound := h.sound (by rw [hstage]; nofun)
    cases hstep
    exact .running (hsound.sweep (fun fd => by simp [Removing, hstage]) now)
  case h_6 => cases hstep

theorem inOrder_of_reached (h : (eventWorker setting).Reached s) : s.InOrder setting :=
  h.invariant (fun _ hinit => hinit ▸ .running sound_start) fun _ _ _ hin _ hstep =>
    hin.step hstep

/-! ## Between two iterations -/

/-- The connection `fd` is writing, and `file` is what it has to send. -/
def Owns (s : EventWorker) (fd file : Fd) : Prop :=
  ∃ state, s.conns.lookup fd = some state ∧ state.phase = .writing ∧
    state.sendfileFd = some file

/-- Whenever a response came with `file`, it was closed since, but for the last time at most. -/
def Accounted (s : EventWorker) (file : Fd) : Prop :=
  (s.returned.count file = s.closed.count file ∧ ∀ fd, ¬ s.Owns fd file) ∨
    (s.returned.count file = s.closed.count file + 1 ∧ ∃! fd, s.Owns fd file)

structure Consistent (setting : EventWorkerSetting) (s : EventWorker) : Prop where
  registered : ∀ fd, (s.poller fd).isSome = true ↔
    fd = setting.wakePipe ∨ fd = setting.shutdownPipe ∨ fd ∈ s.conns
  interest : ∀ fd state, s.conns.lookup fd = some state → s.poller fd =
    some { wantRead := state.phase = .reading, wantWrite := state.phase = .writing }
  reading : ∀ fd state, s.conns.lookup fd = some state → state.phase = .reading →
    state.writeBuf = [] ∧ state.writeOffset = 0 ∧ state.sendfileFd = none ∧
      state.parser.needMore = true
  offset : ∀ fd state, s.conns.lookup fd = some state →
    state.writeOffset ≤ state.writeBuf.length
  size : ∀ fd state, s.conns.lookup fd = some state → 0 ≤ state.sendfileSize

theorem Sound.owns_iff (h : s.Sound setting) {fd file : Fd} :
    s.Owns fd file ↔
      ∃ state, s.conns.lookup fd = some state ∧ file ∈ state.sendfileFd.toList := by
  constructor
  · rintro ⟨state, hlookup, -, hfile⟩
    exact ⟨state, hlookup, by simp [hfile]⟩
  · rintro ⟨state, hlookup, hfile⟩
    rw [Option.mem_toList] at hfile
    refine ⟨state, hlookup, ?_, hfile⟩
    cases hphase : state.phase with
    | reading =>
        have hnone := ((h.conns fd state hlookup).idle hphase).1.sendfileFd
        rw [hnone] at hfile
        cases hfile
    | writing => rfl

theorem Sound.accounted (h : s.Sound setting) (file : Fd) : s.Accounted file := by
  have hcount := h.ledger.count_eq file
  have hnodup : s.bodies.Nodup :=
    (List.nodup_cons.1 (List.nodup_cons.1 h.descriptors).2).2.of_append_right
  rw [List.count_append] at hcount
  by_cases hmem : file ∈ s.bodies
  · rw [List.count_eq_one_of_mem hnodup hmem] at hcount
    refine .inr ⟨hcount, ?_⟩
    simpa only [h.owns_iff] using existsUnique_of_mem_holdings hnodup hmem
  · rw [List.count_eq_zero_of_not_mem hmem] at hcount
    refine .inl ⟨hcount, fun fd howns => hmem ?_⟩
    exact mem_holdings.2 ⟨fd, h.owns_iff.1 howns⟩

theorem Sound.consistent (h : s.Sound setting) (hstage : s.stage = .polling) :
    s.Consistent setting where
  registered fd := by
    rw [h.poller, watched]
    split_ifs with hpipe
    · simp [← or_assoc, hpipe]
    · simp [← or_assoc, hpipe, AList.lookup_isSome]
  interest fd state hlookup := by
    rw [h.poller_eq hlookup]
    cases state.phase <;> rfl
  reading fd state hlookup hreading := by
    obtain ⟨hidle, hparser⟩ := (h.conns fd state hlookup).idle hreading
    have hnot : ¬ s.Removing fd := by simp [Removing, hstage]
    exact ⟨hidle.writeBuf, hidle.writeOffset, hidle.sendfileFd, hparser.resolve_right hnot⟩
  offset fd state hlookup := (h.conns fd state hlookup).bounds.offset
  size fd state hlookup := (h.conns fd state hlookup).bounds.size

/-- Between two iterations everything is in its place; no file is closed twice, or lost. -/
theorem eventWorker_consistent (h : (eventWorker setting).Reached s) :
    (s.stage = .polling → s.Consistent setting) ∧
      (s.stage ≠ .exited → ∀ file, s.Accounted file) ∧
      (s.stage = .exited → ∀ file, s.returned.count file = s.closed.count file) := by
  have hin := inOrder_of_reached h
  refine ⟨fun hpolling => ?_, fun hrunning => (hin.sound hrunning).accounted, fun hexited => ?_⟩
  · exact (hin.sound (by rw [hpolling]; nofun)).consistent hpolling
  · cases hin with
    | running hsound => exact absurd hexited hsound.running
    | exited _ hledger => exact hledger.count_eq

/-! ## A run -/

def fileWorker : EventWorkerSetting where
  wakePipe := 10
  shutdownPipe := 11
  pipes_ne := by decide
  timeoutSeconds := 5
  config := { virtualHosts := [⟨ascii "/", ascii "localhost"⟩] }
  iteration := .inOrder

def fileRequest : EventAnswers where
  read := .ok (ascii "GET /a.txt HTTP/1.1\r\n\r\n")
  write := .again
  sendfiles := []
  env := .still (.flat [(ascii "a.txt", ascii "text")]) fun _ => .forkFailed
  others := []
  accepting := true

/-- A connection is accepted and sends a request for a file. -/
def fileRun : List EventWorkerLabel :=
  [.wait [⟨10, true, false⟩], .accept 12 [] 0, .serve 0, .handle fileRequest, .sweep,
    .wait [⟨12, true, false⟩], .serve 0, .handle fileRequest, .sweep]

theorem eventWorker_consistent_file : ∃ s, (eventWorker fileWorker).Reached s ∧
    s.stage = .polling ∧ s.returned = [13] ∧ s.Consistent fileWorker ∧ s.Accounted 13 := by
  have hrun := (Machine.Run.init (M := eventWorker fileWorker) (s := start fileWorker) rfl).record
    fileRun (r := Option.get ((eventWorker fileWorker).record [] (start fileWorker) fileRun) rfl)
    rfl
  have hall := eventWorker_consistent hrun.reached
  exact ⟨_, hrun.reached, rfl, rfl, hall.1 rfl, hall.2.1 nofun 13⟩

end EventWorker

end CppHttpd
