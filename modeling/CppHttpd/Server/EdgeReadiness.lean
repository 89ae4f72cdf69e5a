import CppHttpd.Server.EventLoop

/-!
# Readiness that is not lost

An event is reported once, and `process_readable` reads once.  What it leaves
unread is reported again only if more bytes arrive, or if the connection is
modified, which happens when a request is complete.  The invariant says where
the unread bytes of a connection that reads are accounted for: on the ready
list, in an event that is still to be handled, or with the connection's end.
-/

namespace CppHttpd

open CppHttpd.Foundation RequestParser

variable {W : Type*}

/-- Every connection that reads and has unread bytes has a readiness event pending. -/
def NoLostReadiness (s : LoopState W) : Prop :=
  ∀ fd state, s.conns fd = some state → state.phase = .reading →
    (s.sockets fd).unread ≠ [] →
      ∃ watch, s.poller fd = some watch ∧ watch.pending = true ∧
        watch.interest.wantRead = true

/-! ## The invariant -/

def Reports (events : List PollEvent) (fd : Fd) : Prop :=
  ∃ event ∈ events, event.fd = fd ∧ event.readable = true

/-- The worker will still come to the connection in this iteration. -/
def Stage.InHand : Stage → Fd → Prop
  | .polling, _ => False
  | .accepting events, fd => Reports events fd
  | .serving events toRemove, fd => Reports events fd ∨ fd ∈ toRemove

/-- What the kernel and the worker know of a connection accounts for its unread bytes. -/
structure Tended (socket : Socket) (entry : Option Watch) (inHand : Prop) (fd : Fd)
    (state : ConnState) : Prop where
  fd_eq : state.fd = fd
  watched : ∃ watch, entry = some watch ∧ watch.interest = state.phase.interest ∧
    (state.phase = .reading → socket.unread ≠ [] → watch.pending = true ∨ inHand)

def AllTended (s : LoopState W) : Prop :=
  ∀ fd state, s.conns fd = some state →
    Tended (s.sockets fd) (s.poller fd) (s.stage.InHand fd) fd state

theorem AllTended.noLostReadiness {s : LoopState W} (htended : AllTended s)
    (hstage : s.stage = .polling) : NoLostReadiness s := by
  intro fd state hconn hreading hunread
  obtain ⟨watch, hentry, hinterest, hpending⟩ := (htended fd state hconn).watched
  rw [hstage] at hpending
  have hwatched := (hpending hreading hunread).resolve_right id
  exact ⟨watch, hentry, hwatched, by rw [hinterest, hreading]; rfl⟩

theorem Tended.mono {socket : Socket} {entry : Option Watch} {inHand inHand' : Prop}
    {fd : Fd} {state : ConnState} (h : Tended socket entry inHand fd state)
    (himp : inHand → inHand') : Tended socket entry inHand' fd state := by
  obtain ⟨hfd, watch, hentry, hinterest, hpending⟩ := h
  exact ⟨hfd, watch, hentry, hinterest, fun hr hu => (hpending hr hu).imp_right himp⟩

/-! ## Peers and kernel -/

/-- Whatever arrives is reported, or else will be when the connection reads again. -/
theorem Tended.arrive {poller : EpollPoller} {socket socket' : Socket} {inHand : Prop}
    {fd : Fd} {state : ConnState} (h : Tended socket (poller fd) inHand fd state) :
    Tended socket' (poller.notify fd { wantRead := true, wantWrite := false } fd) inHand
      fd state := by
  obtain ⟨hfd, watch, hentry, hinterest, hpending⟩ := h
  refine ⟨hfd, _, poller.notify_self fd hentry _, hinterest, fun hreading _ => .inl ?_⟩
  simp [hinterest, hreading, Phase.interest]

theorem Tended.makeRoom {poller : EpollPoller} {socket socket' : Socket} {inHand : Prop}
    {fd : Fd} {state : ConnState} (h : Tended socket (poller fd) inHand fd state)
    (hunread : socket'.unread = socket.unread) :
    Tended socket' (poller.notify fd { wantRead := false, wantWrite := true } fd) inHand
      fd state := by
  obtain ⟨hfd, watch, hentry, hinterest, hpending⟩ := h
  refine ⟨hfd, _, poller.notify_self fd hentry _, hinterest, fun hreading hne => ?_⟩
  rw [hunread] at hne
  exact (hpending hreading hne).imp_left fun hp => by simp [hp]

theorem AllTended.notify {s : LoopState W} (htended : AllTended s) (fd : Fd) (socket : Socket)
    (about : Interest)
    (hfd : ∀ state, s.conns fd = some state →
      Tended socket (s.poller.notify fd about fd) (s.stage.InHand fd) fd state) :
    AllTended { s with
      sockets := Function.update s.sockets fd socket
      poller := s.poller.notify fd about } := by
  intro fd' state hconn
  by_cases heq : fd' = fd
  · subst heq
    simpa using hfd state hconn
  · simpa [heq, s.poller.notify_of_ne fd heq] using htended fd' state hconn

/-! ## The worker -/

theorem Stage.InHand.tail {event : PollEvent} {events : List PollEvent} {toRemove : List Fd}
    {fd : Fd} (hne : fd ≠ event.fd) (h : (Stage.serving (event :: events) toRemove).InHand fd) :
    (Stage.serving events toRemove).InHand fd := by
  rcases h with ⟨event', hmem, hfd, hreadable⟩ | hremove
  · rcases List.mem_cons.1 hmem with rfl | hmem
    · exact absurd hfd.symm hne
    · exact .inl ⟨event', hmem, hfd, hreadable⟩
  · exact .inr hremove

theorem AllTended.wait {s : LoopState W} (htended : AllTended s) (hstage : s.stage = .polling)
    {batch : List Fd} {events : List PollEvent} {poller : EpollPoller}
    (hwait : s.poller.wait s.sockets batch = some (events, poller)) :
    AllTended { s with poller := poller, stage := .accepting events } := by
  unfold EpollPoller.wait at hwait
  split_ifs at hwait
  obtain ⟨rfl, rfl⟩ := Prod.mk.inj (Option.some.inj hwait)
  intro fd state hconn
  obtain ⟨hfd, watch, hentry, hinterest, hpending⟩ := htended fd state hconn
  rw [hstage] at hpending
  by_cases hmem : fd ∈ batch
  · refine ⟨hfd, { watch with pending := false }, by simp [hmem, hentry], hinterest,
      fun hreading hunread => .inr ?_⟩
    refine ⟨watch.interest.events fd (s.sockets fd), ?_, rfl, ?_⟩
    · refine List.mem_filterMap.2 ⟨fd, hmem, ?_⟩
      simp [EpollPoller.report, hentry, hinterest, hreading, Phase.interest,
        Interest.events, PollEvent.any, Socket.readable, hunread]
    · simp [hinterest, hreading, Phase.interest, Interest.events, Socket.readable, hunread]
  · exact ⟨hfd, watch, by simp [hmem, hentry], hinterest,
      fun hreading hunread => .inl ((hpending hreading hunread).resolve_right id)⟩

theorem AllTended.accept {s : LoopState W} (htended : AllTended s) (fd : Fd)
    (clientIp : Bytes) (socket : Socket) (now : Int) :
    AllTended { s with
      sockets := Function.update s.sockets fd socket
      poller := s.poller.add fd { wantRead := true, wantWrite := false } socket
      conns := Function.update s.conns fd
        (some { fd := fd, clientIp := clientIp, acceptedAt := now }) } := by
  intro fd' state hconn
  by_cases heq : fd' = fd
  · subst heq
    simp only [Function.update_self, Option.some.injEq] at hconn
    subst hconn
    refine ⟨rfl, _, s.poller.add_self fd' _ _, rfl, fun _ hunread => .inl ?_⟩
    have hne : socket.unread ≠ [] := by simpa using hunread
    simp [Interest.events, PollEvent.any, Socket.readable, hne]
  · simp only [Function.update_of_ne heq] at hconn
    simpa [heq, s.poller.add_of_ne fd heq] using htended fd' state hconn

/-- How a call for a connection leaves it accounted for. -/
inductive TurnTended (socket : Socket) (watch : Watch) (phase : Phase) (turn : ConnTurn W) :
    Prop
  | closes (hclose : turn.close = true) (hmodify : turn.modify = none)
      (hphase : turn.state.phase = phase)
  | changes (hmodify : turn.modify = some turn.state.phase.interest)
  | stays (hmodify : turn.modify = none) (hphase : turn.state.phase = phase)
      (hrest : phase = .reading → socket.unread ≠ [] → watch.pending = true)

theorem LoopState.finish_poller_of_ne (s : LoopState W) {fd fd' : Fd} {turn : ConnTurn W}
    (events : List PollEvent) (toRemove : List Fd) (hfd : turn.state.fd = fd)
    (hne : fd' ≠ fd) : (s.finish fd turn events toRemove).poller fd' = s.poller fd' := by
  unfold LoopState.finish
  cases turn.modify with
  | none => rfl
  | some interest => exact s.poller.modify_of_ne _ (hfd ▸ hne) _ _

theorem AllTended.finish {s : LoopState W} (htended : AllTended s) {event : PollEvent}
    {events : List PollEvent} {toRemove : List Fd}
    (hstage : s.stage = .serving (event :: events) toRemove) {state : ConnState}
    (hconn : s.conns event.fd = some state) (socket : Socket) {turn : ConnTurn W}
    (hfd : turn.state.fd = state.fd)
    (hturn : ∀ watch, s.poller event.fd = some watch →
      TurnTended socket watch state.phase turn) :
    AllTended ({ s with sockets := Function.update s.sockets event.fd socket }.finish
      event.fd turn events toRemove) := by
  obtain ⟨hstate, watch, hentry, hinterest, _⟩ := htended event.fd state hconn
  have hturnFd : turn.state.fd = event.fd := hfd.trans hstate
  intro fd' state' hconn'
  by_cases heq : fd' = event.fd
  · subst heq
    simp only [LoopState.finish, Function.update_self, Option.some.injEq] at hconn'
    subst hconn'
    refine ⟨hturnFd, ?_⟩
    simp only [LoopState.finish, hturnFd, Function.update_self]
    cases hturn watch hentry with
    | closes hclose hmodify hphase =>
        refine ⟨watch, by rw [hmodify]; exact hentry, by rw [hinterest, hphase], ?_⟩
        intro _ _
        simp [hclose, Stage.InHand]
    | changes hmodify =>
        refine ⟨_, by rw [hmodify]; exact s.poller.modify_self _ hentry _ _, rfl, ?_⟩
        intro hreading hunread
        simp [hreading, Phase.interest, Interest.events, PollEvent.any, Socket.readable,
          hunread]
    | stays hmodify hphase hrest =>
        refine ⟨watch, by rw [hmodify]; exact hentry, by rw [hinterest, hphase], ?_⟩
        intro hreading hunread
        exact .inl (hrest (hphase ▸ hreading) hunread)
  · simp only [LoopState.finish, Function.update_of_ne heq] at hconn'
    have hother := htended fd' state' hconn'
    rw [hstage] at hother
    have hpoller := LoopState.finish_poller_of_ne
      { s with sockets := Function.update s.sockets event.fd socket } events toRemove
      hturnFd heq
    have hnext : Tended (s.sockets fd') (s.poller fd')
        ((Stage.serving events (if turn.close then toRemove ++ [event.fd] else toRemove)).InHand
          fd') fd' state' := by
      refine hother.mono fun hin => (hin.tail heq).imp_right fun hmem => ?_
      split_ifs
      · exact List.mem_append_left _ hmem
      · exact hmem
    rw [hpoller]
    simp only [LoopState.finish, Function.update_of_ne heq]
    exact hnext

/--
Whatever a read leaves unread, it has completed a request or made the parser
fail, or else more bytes have arrived since it was reported.
-/
def readFits (parser : RequestParser) (unread : Bytes) (pending : Bool) : Bool :=
  unread.length ≤ READ_BUF_SIZE ||
    (parser.feed (unread.take READ_BUF_SIZE)).hasRequest ||
    (parser.feed (unread.take READ_BUF_SIZE)).hasError || pending

theorem readable_tended (h : Handler W) (w : W) {state : ConnState} (socket : Socket)
    {watch : Watch}
    (hfits : readFits state.parser socket.unread watch.pending = true) :
    TurnTended (socket.read READ_BUF_SIZE).2 watch state.phase
      (processReadable h w state (socket.read READ_BUF_SIZE).1) := by
  by_cases hunread : socket.unread = []
  · cases hended : socket.ended with
    | true =>
        rw [Socket.read, if_neg (by simpa using hunread), if_pos hended]
        exact .closes rfl rfl rfl
    | false =>
        rw [Socket.read, if_neg (by simpa using hunread), if_neg (by simp [hended])]
        exact .stays rfl rfl fun _ hne => absurd hunread hne
  · rw [Socket.read, if_pos hunread]
    have hout := processReadable_outcome h w state (socket.unread.take READ_BUF_SIZE)
    generalize processReadable h w state (.ok (socket.unread.take READ_BUF_SIZE)) = turn at hout ⊢
    cases hout with
    | ended => exact .closes rfl rfl rfl
    | answers _ _ _ hstate =>
        subst hstate
        exact .changes rfl
    | refuses _ _ hstate =>
        subst hstate
        exact .closes rfl rfl rfl
    | waits _ hdone herr hstate =>
        subst hstate
        refine .stays rfl rfl fun _ hrest => ?_
        simp only [readFits, hasRequest, hasError, Bool.or_eq_true, decide_eq_true_eq] at hfits
        rcases hfits with ((hlen | hdone') | herr') | hpending
        · exact absurd (List.drop_eq_nil_of_le hlen) hrest
        · exact absurd hdone' hdone
        · exact absurd herr' herr
        · exact hpending

theorem writable_tended (w : W) {state : ConnState} (hwriting : state.phase = .writing)
    (socket : Socket) (watch : Watch) (write : SendResult) (sendfiles : List SendResult) :
    TurnTended socket watch state.phase (processWritable w state write sendfiles) := by
  have hout := processWritable_outcome w state write sendfiles
  generalize processWritable w state write sendfiles = turn at hout ⊢
  have hnot : state.phase ≠ .reading := by rw [hwriting]; decide
  cases hout with
  | waits course => exact .stays rfl course.phase fun hreading => absurd hreading hnot
  | breaks course _ => exact .closes rfl rfl course.phase
  | closes course _ => exact .closes rfl rfl course.phase
  | resets course _ => exact .changes rfl

theorem AllTended.skip {s : LoopState W} (htended : AllTended s) {event : PollEvent}
    {events : List PollEvent} {toRemove : List Fd}
    (hstage : s.stage = .serving (event :: events) toRemove)
    (hskip : ∀ state, s.conns event.fd = some state →
      ¬ (state.phase = .reading ∧ event.readable = true)) :
    AllTended { s with stage := .serving events toRemove } := by
  intro fd state hconn
  obtain ⟨hfd, watch, hentry, hinterest, hpending⟩ := htended fd state hconn
  refine ⟨hfd, watch, hentry, hinterest, fun hreading hunread => ?_⟩
  apply (hpending hreading hunread).imp_right
  intro hin
  rw [hstage] at hin
  rcases hin with ⟨event', hmem, heq, hreadable⟩ | hremove
  · rcases List.mem_cons.1 hmem with rfl | hmem
    · subst heq
      exact absurd ⟨hreading, hreadable⟩ (hskip state hconn)
    · exact .inl ⟨event', hmem, heq, hreadable⟩
  · exact .inr hremove

/-- The read that is about to be made leaves nothing that is not accounted for. -/
def readsFit (s : LoopState W) : LoopLabel → Bool
  | .handle _ _ _ =>
      match s.stage with
      | .serving (event :: _) _ =>
          match s.conns event.fd with
          | none => true
          | some state =>
              if state.phase = .reading ∧ event.readable then
                readFits state.parser (s.sockets event.fd).unread
                  (s.poller.isPending event.fd)
              else true
      | _ => true
  | _ => true

theorem AllTended.handle {s : LoopState W} (htended : AllTended s) (h : Handler W)
    {event : PollEvent} {events : List PollEvent} {toRemove : List Fd}
    (hstage : s.stage = .serving (event :: events) toRemove)
    (write : SendResult) (sendfiles : List SendResult) (sendable : Bool)
    (hfits : readsFit s (.handle write sendfiles sendable) = true) :
    AllTended (s.handleEvent h event events toRemove write sendfiles sendable) := by
  unfold LoopState.handleEvent
  cases hconn : s.conns event.fd with
  | none => exact htended.skip hstage (by simp [hconn])
  | some state =>
      dsimp only
      split_ifs with hread hwrite
      · apply htended.finish hstage hconn _ (processReadable_fd h _ _ _)
        intro watch hentry
        simp only [readsFit, hstage, hconn, if_pos hread, EpollPoller.isPending, hentry] at hfits
        exact readable_tended h s.world (s.sockets event.fd) hfits
      · exact htended.finish hstage hconn _ (processWritable_fd _ _ _ _) fun watch _ =>
          writable_tended s.world hwrite.1 _ watch write sendfiles
      · apply htended.skip hstage
        intro state' hconn'
        rw [hconn] at hconn'
        cases hconn'
        exact hread

theorem AllTended.sweep {s : LoopState W} (htended : AllTended s) (timeoutSeconds now : Int)
    {toRemove : List Fd} (hstage : s.stage = .serving [] toRemove) :
    AllTended (s.sweepConns timeoutSeconds now toRemove) := by
  intro fd state hconn
  simp only [LoopState.sweepConns] at hconn ⊢
  split_ifs at hconn with hremoved
  obtain ⟨hfd, watch, hentry, hinterest, hpending⟩ := htended fd state hconn
  rw [hstage] at hpending
  rw [if_neg (fun hboth => hremoved hboth.1)]
  refine ⟨hfd, watch, hentry, hinterest, fun hreading hunread => .inl ?_⟩
  rcases hpending hreading hunread with hpending | ⟨_, hmem, _⟩ | hmem
  · exact hpending
  · simp at hmem
  · exact absurd (.inl hmem) hremoved

theorem allTended_step (h : Handler W) (timeoutSeconds : Int) (s : LoopState W)
    (label : LoopLabel) (s' : LoopState W) (htended : AllTended s)
    (hfits : readsFit s label = true)
    (hstep : s.step h timeoutSeconds label = some s') : AllTended s' := by
  cases label with
  | arrive fd data =>
      simp only [LoopState.step] at hstep
      split_ifs at hstep
      cases hstep
      exact htended.notify fd _ _ fun state hconn => (htended fd state hconn).arrive
  | hangUp fd =>
      cases hstep
      exact htended.notify fd _ _ fun state hconn => (htended fd state hconn).arrive
  | makeRoom fd =>
      cases hstep
      exact htended.notify fd _ _ fun state hconn => (htended fd state hconn).makeRoom rfl
  | wait batch =>
      simp only [LoopState.step] at hstep
      cases hstage : s.stage with
      | polling =>
          simp only [hstage] at hstep
          cases hwait : s.poller.wait s.sockets batch with
          | none => simp [hwait] at hstep
          | some r =>
              simp only [hwait, Option.some.injEq] at hstep
              subst hstep
              exact htended.wait hstage hwait
      | accepting events => simp [hstage] at hstep
      | serving events toRemove => simp [hstage] at hstep
  | accept fd clientIp socket now =>
      simp only [LoopState.step] at hstep
      cases hstage : s.stage with
      | polling => simp [hstage] at hstep
      | accepting events =>
          simp only [hstage] at hstep
          split_ifs at hstep
          cases hstep
          rw [← hstage]
          exact htended.accept fd clientIp socket now
      | serving events toRemove => simp [hstage] at hstep
  | serve =>
      simp only [LoopState.step] at hstep
      cases hstage : s.stage with
      | polling => simp [hstage] at hstep
      | accepting events =>
          simp only [hstage, Option.some.injEq] at hstep
          subst hstep
          intro fd state hconn
          have htend := htended fd state hconn
          rw [hstage] at htend
          exact htend.mono .inl
      | serving events toRemove => simp [hstage] at hstep
  | handle write sendfiles sendable =>
      simp only [LoopState.step] at hstep
      split at hstep
      · rename_i event events toRemove hstage
        cases hstep
        exact htended.handle h hstage write sendfiles sendable hfits
      · cases hstep
  | sweep now =>
      simp only [LoopState.step] at hstep
      split at hstep
      · rename_i toRemove hstage
        cases hstep
        exact htended.sweep timeoutSeconds now hstage
      · cases hstep

/--
In every run whose reads fit, no readiness is lost between two iterations.
-/
theorem eventLoop_noLostReadiness (h : Handler W) (timeoutSeconds : Int) {s : LoopState W}
    (hreached : (eventLoop h timeoutSeconds).ReachedBy
      (fun s label => readsFit s label = true) s)
    (hstage : s.stage = .polling) : NoLostReadiness s := by
  refine AllTended.noLostReadiness ?_ hstage
  refine hreached.invariant (fun s hinit fd state hconn => ?_)
    (fun s label s' htended hfits hstep =>
      allTended_step h timeoutSeconds s label s' htended hfits hstep)
  rw [hinit.2.2 fd] at hconn
  cases hconn

/-! ## Two runs -/

def LoopState.start (world : W) : LoopState W :=
  { sockets := fun _ => {}
    poller := fun _ => none
    conns := fun _ => none
    stage := .polling
    world := world }

/-- A connection comes with bytes that have arrived already; it is taken over, and read once. -/
def readOnce (fd : Fd) (unread : Bytes) : List LoopLabel :=
  [.wait [], .accept fd [] { unread := unread } 0, .serve, .sweep 0,
    .wait [fd], .serve, .handle .again [] true, .sweep 0]

/-- Between two iterations, `fd` reads, and there is something to be read. -/
def LoopState.awaits (s : LoopState W) (fd : Fd) : Bool :=
  (match s.stage with
    | .polling => true
    | _ => false) &&
    (match s.conns fd with
      | none => false
      | some state => state.phase = .reading && (s.sockets fd).unread ≠ [])

theorem LoopState.awaits_spec {s : LoopState W} {fd : Fd} (hawaits : s.awaits fd = true) :
    s.stage = .polling ∧ ∃ state, s.conns fd = some state ∧ state.phase = .reading ∧
      (s.sockets fd).unread ≠ [] := by
  unfold LoopState.awaits at hawaits
  cases hstage : s.stage with
  | polling =>
      cases hconn : s.conns fd with
      | none => simp [hconn] at hawaits
      | some state => exact ⟨rfl, state, rfl, by simpa [hstage, hconn] using hawaits⟩
  | accepting events => simp [hstage] at hawaits
  | serving events toRemove => simp [hstage] at hawaits

theorem LoopState.not_noLostReadiness {s : LoopState W} {fd : Fd} (hawaits : s.awaits fd = true)
    (hpending : s.poller.isPending fd = false) : ¬ NoLostReadiness s := by
  intro hnone
  obtain ⟨_, state, hconn, hreading, hunread⟩ := LoopState.awaits_spec hawaits
  obtain ⟨watch, hentry, hwatched, _⟩ := hnone fd state hconn hreading hunread
  simp [EpollPoller.isPending, hentry, hwatched] at hpending

/-- Half a request fits into one read, and there is an event for the other half. -/
theorem eventLoop_noLostReadiness_small :
    let h : Handler Unit :=
      { handle := fun _ _ _ _ => (HttpResponse.ofStatus StatusCode.Ok, ())
        accepting := fun _ => true
        iteration := .inOrder }
    ∃ s, (eventLoop h 30).run readsFit (.start ())
        (readOnce 7 (ascii "GET / HTT") ++ [.arrive 7 (ascii "P/1.1\r\n\r\n")]) = some s ∧
      s.awaits 7 = true ∧ NoLostReadiness s := by
  intro h
  have hrun : ((eventLoop h 30).run readsFit (.start ())
      (readOnce 7 (ascii "GET / HTT") ++ [.arrive 7 (ascii "P/1.1\r\n\r\n")])).any
        (fun s => s.awaits 7) = true := by decide +kernel
  obtain ⟨s, hs, hawaits⟩ := (Option.any_eq_true _ _).1 hrun
  have hinit : (eventLoop h 30).init (.start ()) := ⟨rfl, fun _ => rfl, fun _ => rfl⟩
  exact ⟨s, hs, hawaits, eventLoop_noLostReadiness h 30
    (Machine.ReachedBy.run (.init hinit) _ hs) (LoopState.awaits_spec hawaits).1⟩

/-- A request of two reads, of which the second is never made. -/
theorem large_request_stuck :
    let h : Handler Unit :=
      { handle := fun _ _ _ _ => (HttpResponse.ofStatus StatusCode.Ok, ())
        accepting := fun _ => true
        iteration := .inOrder }
    let request := ascii "POST / HTTP/1.1\r\nContent-Length: 9000\r\n\r\n" ++
      List.replicate 9000 (byteOf 'a')
    (feed {} request).hasRequest = true ∧
      ∃ s, (eventLoop h 30).Reached s ∧ s.stage = .polling ∧ ¬ NoLostReadiness s := by
  intro h request
  refine ⟨by decide +kernel, ?_⟩
  have hrun : ((eventLoop h 30).run (fun _ _ => true) (.start ()) (readOnce 7 request)).any
      (fun s => s.awaits 7 && !s.poller.isPending 7) = true := by decide +kernel
  obtain ⟨s, hs, hstuck⟩ := (Option.any_eq_true _ _).1 hrun
  obtain ⟨hawaits, hpending⟩ : s.awaits 7 = true ∧ s.poller.isPending 7 = false := by
    simpa using hstuck
  have hinit : (eventLoop h 30).init (.start ()) := ⟨rfl, fun _ => rfl, fun _ => rfl⟩
  have hreached := Machine.ReachedBy.run (.init hinit) _ hs
  exact ⟨s, hreached.mono fun _ _ _ => trivial, (LoopState.awaits_spec hawaits).1,
    LoopState.not_noLostReadiness hawaits hpending⟩

end CppHttpd
