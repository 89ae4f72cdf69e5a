import CppHttpd.Server.ConnectionHistory
import CppHttpd.Server.EdgeReadiness

/-!
# Connections that do not touch each other

The connections of a worker share its thread, its poller and the world of the
handler.  Whatever the order of the events is, the history of each is one that it
could have on its own.
-/

namespace CppHttpd

open CppHttpd.Foundation RequestParser

variable {W : Type*}

/-! ## The worker -/

/-- A connection is reported at most once. -/
theorem EpollPoller.report_sublist (poller : EpollPoller) (sockets : Fd → Socket)
    (batch : List Fd) :
    ((batch.filterMap (poller.report sockets)).map PollEvent.fd).Sublist batch := by
  induction batch with
  | nil => exact List.Sublist.slnil
  | cons fd batch ih =>
      cases hreport : poller.report sockets fd with
      | none =>
          rw [List.filterMap_cons_none hreport]
          exact ih.cons fd
      | some event =>
          have hfd : event.fd = fd := by
            unfold report at hreport
            split at hreport
            · cases hreport
            · dsimp only at hreport
              split_ifs at hreport
              cases hreport
              rfl
          rw [List.filterMap_cons_some hreport, List.map_cons, hfd]
          exact ih.cons_cons fd

namespace LoopState

/-- The connections that are closed behind the events. -/
def toRemove (s : LoopState W) : List Fd :=
  match s.stage with
  | .serving _ toRemove => toRemove
  | _ => []

/-- The events that are still to be handled. -/
def due (s : LoopState W) : List PollEvent :=
  match s.stage with
  | .polling => []
  | .accepting events => events
  | .serving events _ => events

/-- The kernel sends no more than it is asked to. -/
def sendsWithin (s : LoopState W) (l : LoopLabel) : Bool :=
  match l, s.stage with
  | .handle write sendfiles _, .serving (event :: _) _ =>
      (s.conns event.fd).all fun c => c.phase ≠ .writing ∨
        write.Within (c.writeBuf.length - c.writeOffset) ∧
          SendfilesWithin c.sendfileSize sendfiles
  | _, _ => true

end LoopState

/-- Every connection agrees with its own history, and no event is left of one that is closed. -/
structure Separate (h : Handler W) (hists : Fd → History) (s : LoopState W) : Prop where
  accounts : ∀ fd c, s.conns fd = some c → (hists fd).Accounts h c (s.sockets fd)
  agrees : ∀ fd c, s.conns fd = some c → fd ∉ s.toRemove → (hists fd).Agrees c
  distinct : (s.due.map PollEvent.fd).Nodup
  removed : ∀ fd ∈ s.toRemove, fd ∉ s.due.map PollEvent.fd

namespace Separate

variable {h : Handler W} {hists : Fd → History} {s s' : LoopState W}

theorem withSockets (hsep : Separate h hists s) {hists' : Fd → History}
    {sockets : Fd → Socket} (poller : EpollPoller)
    (haccounts : ∀ fd c, (hists fd).Accounts h c (s.sockets fd) →
      (hists' fd).Accounts h c (sockets fd))
    (hagrees : ∀ fd c, (hists fd).Agrees c → (hists' fd).Agrees c) :
    Separate h hists' { s with sockets := sockets, poller := poller } where
  accounts fd c hc := haccounts fd c (hsep.accounts fd c hc)
  agrees fd c hc hkept := hagrees fd c (hsep.agrees fd c hc hkept)
  distinct := hsep.distinct
  removed := hsep.removed

/-- Something happens to a socket without any bytes. -/
theorem withSocket (hsep : Separate h hists s) (fd : Fd) {socket : Socket}
    (poller : EpollPoller) (hunread : socket.unread = (s.sockets fd).unread) :
    Separate h hists
      { s with sockets := Function.update s.sockets fd socket, poller := poller } := by
  refine hsep.withSockets poller (fun fd' c hacc => hacc.withSocket rfl ?_) fun _ _ => id
  by_cases hsame : fd' = fd
  · subst hsame
    rw [Function.update_self, hunread]
  · rw [Function.update_of_ne hsame]

/-- The turn of a connection is noted in its own history and in no other. -/
theorem finish (hsep : Separate h hists s) {event : PollEvent} {events : List PollEvent}
    {toRemove : List Fd} (hstage : s.stage = .serving (event :: events) toRemove)
    {hists' : Fd → History} {turn : ConnTurn W} {sockets : Fd → Socket}
    (hothers : ∀ fd, fd ≠ event.fd → hists' fd = hists fd ∧ sockets fd = s.sockets fd)
    (haccounts : (hists' event.fd).Accounts h turn.state (sockets event.fd))
    (hagrees : turn.close = false → (hists' event.fd).Agrees turn.state) :
    Separate h hists' ({ s with sockets := sockets }.finish event.fd turn events toRemove) := by
  have hdistinct := hsep.distinct
  have hremoved := hsep.removed
  have hkept := hsep.agrees
  simp only [LoopState.due, LoopState.toRemove, hstage, List.map_cons, List.nodup_cons]
    at hdistinct hremoved hkept
  have hleft : ∀ fd, fd ∈ (if turn.close then toRemove ++ [event.fd] else toRemove) ↔
      fd ∈ toRemove ∨ turn.close = true ∧ fd = event.fd := by
    intro fd
    split_ifs with hclose <;> simp [hclose]
  refine ⟨fun fd c hc => ?_, fun fd c hc hfd => ?_, hdistinct.2, fun fd hfd => ?_⟩
  · by_cases hsame : fd = event.fd
    · subst hsame
      simp only [LoopState.finish, Function.update_self, Option.some.injEq] at hc
      exact hc ▸ haccounts
    · obtain ⟨hhist, hsocket⟩ := hothers fd hsame
      simp only [LoopState.finish, Function.update_of_ne hsame] at hc
      rw [hhist]
      exact (hsep.accounts fd c hc).withSocket rfl (congrArg Socket.unread hsocket)
  · have hopen := mt (hleft fd).2 hfd
    rw [not_or] at hopen
    by_cases hsame : fd = event.fd
    · subst hsame
      simp only [LoopState.finish, Function.update_self, Option.some.injEq] at hc
      exact hc ▸ hagrees (by simpa using hopen.2)
    · simp only [LoopState.finish, Function.update_of_ne hsame] at hc
      rw [(hothers fd hsame).1]
      exact hkept fd c hc hopen.1
  · rcases (hleft fd).1 hfd with hbefore | ⟨-, rfl⟩
    · exact fun hmem => hremoved fd hbefore (List.mem_cons_of_mem _ hmem)
    · exact hdistinct.1

/-- A connection that is accepted has no history yet. -/
theorem accept (hsep : Separate h hists s) {events : List PollEvent}
    (hstage : s.stage = .accepting events) (fd : Fd) (clientIp : Bytes) (socket : Socket)
    (now : Int) (poller : EpollPoller) {hists' : Fd → History}
    (hhists : ∀ fd', hists' fd' = if fd = fd' then { arrived := socket.unread } else hists fd') :
    Separate h hists'
      { s with
        sockets := Function.update s.sockets fd socket
        poller := poller
        conns := Function.update s.conns fd
          (some { fd := fd, clientIp := clientIp, acceptedAt := now }) } := by
  have hopen : s.toRemove = [] := by simp only [LoopState.toRemove, hstage]
  refine ⟨fun fd' c hc => ?_, fun fd' c hc hkept => ?_, hsep.distinct, hsep.removed⟩
  · rw [hhists]
    split_ifs with hsame
    · subst hsame
      simp only [Function.update_self]
      exact ⟨rfl, nofun, rfl, nofun, nofun⟩
    · simp only [Function.update_of_ne (Ne.symm hsame)] at hc ⊢
      exact hsep.accounts fd' c hc
  · rw [hhists]
    split_ifs with hsame
    · subst hsame
      simp only [Function.update_self, Option.some.injEq] at hc
      exact hc ▸ .reading rfl rfl nofun
    · simp only [Function.update_of_ne (Ne.symm hsame)] at hc
      exact hsep.agrees fd' c hc (hopen ▸ nofun)

theorem sweep (hsep : Separate h hists s) (timeoutSeconds now : Int) :
    Separate h hists (s.sweepConns timeoutSeconds now s.toRemove) := by
  have hkept : ∀ fd c, (s.sweepConns timeoutSeconds now s.toRemove).conns fd = some c →
      s.conns fd = some c ∧ fd ∉ s.toRemove := by
    intro fd c hc
    simp only [LoopState.sweepConns] at hc
    split_ifs at hc with hremoved
    exact ⟨hc, fun hmem => hremoved (.inl hmem)⟩
  exact
    { accounts := fun fd c hc => hsep.accounts fd c (hkept fd c hc).1
      agrees := fun fd c hc _ => hsep.agrees fd c (hkept fd c hc).1 (hkept fd c hc).2
      distinct := List.nodup_nil
      removed := fun _ hmem => absurd hmem List.not_mem_nil }

/-- The next events are those of distinct connections. -/
theorem wait (hsep : Separate h hists s) {batch : List Fd} {events : List PollEvent}
    {poller : EpollPoller} (hwait : s.poller.wait s.sockets batch = some (events, poller))
    (hstage : s.stage = .polling) :
    Separate h hists { s with poller := poller, stage := .accepting events } := by
  have hopen : s.toRemove = [] := by simp only [LoopState.toRemove, hstage]
  have hevents : (events.map PollEvent.fd).Sublist batch ∧ batch.Nodup := by
    unfold EpollPoller.wait at hwait
    split_ifs at hwait with hbatch
    cases hwait
    exact ⟨s.poller.report_sublist s.sockets batch, hbatch.1⟩
  exact
    { accounts := hsep.accounts
      agrees := fun fd c hc _ => hsep.agrees fd c hc (hopen ▸ nofun)
      distinct := hevents.2.sublist hevents.1
      removed := fun _ hmem => absurd hmem List.not_mem_nil }

theorem serve (hsep : Separate h hists s) {events : List PollEvent}
    (hstage : s.stage = .accepting events) :
    Separate h hists { s with stage := .serving events [] } := by
  have hdistinct := hsep.distinct
  have hkept := hsep.agrees
  simp only [LoopState.due, LoopState.toRemove, hstage] at hdistinct hkept
  exact ⟨hsep.accounts, hkept, hdistinct, nofun⟩

/-- An event that nothing is done for. -/
theorem skip (hsep : Separate h hists s) {event : PollEvent} {events : List PollEvent}
    {toRemove : List Fd} (hstage : s.stage = .serving (event :: events) toRemove) :
    Separate h hists { s with stage := .serving events toRemove } := by
  have hdistinct := hsep.distinct
  have hremoved := hsep.removed
  have hkept := hsep.agrees
  simp only [LoopState.due, LoopState.toRemove, hstage, List.map_cons, List.nodup_cons]
    at hdistinct hremoved hkept
  exact ⟨hsep.accounts, hkept, hdistinct.2, fun fd hfd hmem =>
    hremoved fd hfd (List.mem_cons_of_mem _ hmem)⟩

theorem handleEvent (hsep : Separate h hists s) {event : PollEvent} {events : List PollEvent}
    {toRemove : List Fd} (hstage : s.stage = .serving (event :: events) toRemove)
    {write : SendResult} {sendfiles : List SendResult} (sendable : Bool)
    (hwithin : s.sendsWithin (.handle write sendfiles sendable) = true) :
    Separate h (fun fd => History.step h fd s (.handle write sendfiles sendable) (hists fd))
      (s.handleEvent h event events toRemove write sendfiles sendable) := by
  have hopen : event.fd ∉ s.toRemove := fun hmem => by
    have hremoved := hsep.removed _ hmem
    simp [LoopState.due, hstage] at hremoved
  have hothers : ∀ fd, fd ≠ event.fd →
      History.step h fd s (.handle write sendfiles sendable) (hists fd) = hists fd := by
    intro fd hne
    simp only [History.step, hstage, if_neg hne.symm]
  have hskip : History.step h event.fd s (.handle write sendfiles sendable) (hists event.fd) =
      hists event.fd →
      Separate h (fun fd => History.step h fd s (.handle write sendfiles sendable) (hists fd))
        { s with stage := .serving events toRemove } := by
    intro hsame
    have hall : (fun fd => History.step h fd s (.handle write sendfiles sendable) (hists fd)) =
        hists := by
      funext fd
      by_cases hfd : fd = event.fd
      · exact hfd ▸ hsame
      · exact hothers fd hfd
    rw [hall]
    exact hsep.skip hstage
  unfold LoopState.handleEvent
  cases hconn : s.conns event.fd with
  | none =>
      exact hskip (by simp only [History.step, hstage, if_true, hconn])
  | some c =>
      have hacc := hsep.accounts event.fd c hconn
      have hagrees := hsep.agrees event.fd c hconn hopen
      have hown : History.step h event.fd s (.handle write sendfiles sendable)
            (hists event.fd) =
          if c.phase = .reading ∧ event.readable then
            (hists event.fd).afterRead h s.world c ((s.sockets event.fd).read READ_BUF_SIZE).1
          else if c.phase = .writing ∧ event.writable then
            (hists event.fd).afterWrite c write sendfiles
          else hists event.fd := by
        simp only [History.step, hstage, if_true, hconn]
      dsimp only
      split_ifs at hown ⊢ with hread hwrite
      · have hturn := History.afterRead_read (w := s.world) hacc hagrees hread.1
        revert hown hturn
        rcases (s.sockets event.fd).read READ_BUF_SIZE with ⟨result, socket⟩
        rintro hown ⟨hacc', hagrees'⟩
        refine hsep.finish hstage
          (fun fd hne => ⟨hothers fd hne, Function.update_of_ne hne ..⟩) ?_ ?_
        · rw [hown, Function.update_self]
          exact hacc'
        · rw [hown]
          exact hagrees'
      · simp only [LoopState.sendsWithin, hstage, hconn, Option.all_some, decide_eq_true_eq]
          at hwithin
        obtain ⟨hsent, hsentfiles⟩ := hwithin.resolve_left (not_not.2 hwrite.1)
        have hunread : ({ s.sockets event.fd with sendable := sendable } : Socket).unread =
            (s.sockets event.fd).unread := rfl
        obtain ⟨hacc', hagrees'⟩ := History.afterWrite_turn (w := s.world) hacc hagrees hwrite.1
          hsent hsentfiles hunread
        refine hsep.finish hstage
          (fun fd hne => ⟨hothers fd hne, Function.update_of_ne hne ..⟩) ?_ ?_
        · rw [hown, Function.update_self]
          exact hacc'
        · rw [hown]
          exact hagrees'
      · exact hskip hown

theorem step (hsep : Separate h hists s) (timeoutSeconds : Int) {l : LoopLabel}
    (hwithin : s.sendsWithin l = true) (hstep : s.step h timeoutSeconds l = some s') :
    Separate h (fun fd => History.step h fd s l (hists fd)) s' := by
  cases l with
  | arrive fd data =>
      simp only [LoopState.step] at hstep
      split_ifs at hstep
      cases hstep
      refine hsep.withSockets _ (fun fd' c hacc => ?_) fun fd' c hagrees => ?_
      · by_cases hsame : fd = fd'
        · subst hsame
          simp only [History.step, if_true, Function.update_self]
          exact hacc.arrive data
        · simp only [History.step, if_neg hsame, Function.update_of_ne (Ne.symm hsame)]
          exact hacc
      · simp only [History.step]
        split_ifs
        · exact hagrees.arrive data
        · exact hagrees
  | hangUp fd =>
      cases hstep
      exact hsep.withSocket fd _ rfl
  | makeRoom fd =>
      cases hstep
      exact hsep.withSocket fd _ rfl
  | wait batch =>
      simp only [LoopState.step] at hstep
      split at hstep
      · rename_i hstage
        split at hstep
        · cases hstep
        · rename_i hwait
          cases hstep
          exact hsep.wait hwait hstage
      · cases hstep
  | accept fd clientIp socket now =>
      simp only [LoopState.step] at hstep
      split at hstep
      · rename_i hstage
        split_ifs at hstep
        cases hstep
        exact hsep.accept hstage fd clientIp socket now _ fun fd' => rfl
      · cases hstep
  | serve =>
      simp only [LoopState.step] at hstep
      split at hstep
      · rename_i hstage
        cases hstep
        exact hsep.serve hstage
      · cases hstep
  | handle write sendfiles sendable =>
      simp only [LoopState.step] at hstep
      split at hstep
      · rename_i hstage
        cases hstep
        exact hsep.handleEvent hstage sendable hwithin
      · cases hstep
  | sweep now =>
      simp only [LoopState.step] at hstep
      split at hstep
      · rename_i hstage
        cases hstep
        have hsweep := hsep.sweep timeoutSeconds now
        simp only [LoopState.toRemove, hstage] at hsweep
        exact hsweep
      · cases hstep

end Separate

/--
In any run of a worker, whatever connections it serves and however their bytes, events
and time-outs interleave, each open connection is served as if it were the only one:
its reads are what its peer has sent so far, the requests handed over for it are those
that its reads complete, every response sent to it is one that the handler gave for
one of these requests, in this order, each as a whole before the next begins, and
nothing is left over from a connection that had the same descriptor before.
-/
theorem eventLoop_separate (h : Handler W) (timeoutSeconds : Int)
    {trace : List (LoopState W × LoopLabel)} {s : LoopState W}
    (hrun : (eventLoop h timeoutSeconds).Run trace s)
    (hwithin : ∀ x ∈ trace, x.1.sendsWithin x.2 = true) {fd : Fd} {c : ConnState}
    (hconn : s.conns fd = some c) :
    (History.ofTrace h fd trace).Accounts h c (s.sockets fd) ∧
      (fd ∉ s.toRemove → (History.ofTrace h fd trace).Agrees c) := by
  have hsep : Separate h (fun fd => History.ofTrace h fd trace) s := by
    clear hconn
    induction hrun with
    | @init s hinit =>
        obtain ⟨hstage, -, hconns⟩ := hinit
        refine ⟨fun fd c hc => ?_, fun fd c hc => ?_, ?_, ?_⟩
        · cases (hconns fd).symm.trans hc
        · cases (hconns fd).symm.trans hc
        · simp [LoopState.due, hstage]
        · simp [LoopState.toRemove, hstage]
    | step hrun hstep ih =>
        obtain ⟨hlast, hbefore⟩ := List.forall_mem_cons.1 hwithin
        exact (ih hbefore).step timeoutSeconds hlast hstep
  exact ⟨hsep.accounts fd c hconn, hsep.agrees fd c hconn⟩

/-- A worker with nothing but the response "200 OK", and two connections that take turns. -/
theorem eventLoop_separate_two :
    let h : Handler Unit :=
      { handle := fun _ _ _ _ => (HttpResponse.ofStatus StatusCode.Ok, ())
        accepting := fun _ => true
        iteration := .inOrder }
    ∃ trace s c, (eventLoop h 30).Run trace s ∧ s.conns 7 = some c ∧
      ((History.ofTrace h 7 trace).requests.map HttpRequest.uri) = [ascii "/a"] ∧
      (History.ofTrace h 7 trace).Accounts h c (s.sockets 7) ∧
      (7 ∉ s.toRemove → (History.ofTrace h 7 trace).Agrees c) := by
  intro h
  let labels : List LoopLabel := [.wait [], .accept 7 [] {} 0, .accept 8 [] {} 0, .serve, .sweep 0,
    .arrive 7 (ascii "GET /a HT"), .arrive 8 (ascii "GET /b HTTP/1.1\r\n\r\n"), .wait [8, 7],
    .serve, .handle .again [] true, .handle .again [] true, .sweep 0,
    .arrive 7 (ascii "TP/1.1\r\n\r\n"), .wait [7, 8], .serve, .handle .again [] true,
    .handle (.sent 1 (by decide)) [] true, .sweep 0]
  have hrun : ((eventLoop h 30).record [] (.start ()) labels).any (fun r =>
      r.1.all (fun x => x.1.sendsWithin x.2) && (r.2.conns 7).isSome &&
        decide ((History.ofTrace h 7 r.1).requests.map HttpRequest.uri = [ascii "/a"])) = true := by
    decide +kernel
  obtain ⟨⟨trace, s⟩, hrecord, hchecked⟩ := (Option.any_eq_true _ _).1 hrun
  simp only [Bool.and_eq_true, decide_eq_true_eq] at hchecked
  obtain ⟨⟨hwithin, hsome⟩, huri⟩ := hchecked
  obtain ⟨c, hconn⟩ := Option.isSome_iff_exists.1 hsome
  have hinit : (eventLoop h 30).init (.start ()) := ⟨rfl, fun _ => rfl, fun _ => rfl⟩
  have hreached := (Machine.Run.init hinit).record labels hrecord
  exact ⟨trace, s, c, hreached, hconn, huri,
    eventLoop_separate h 30 hreached (List.all_eq_true.1 hwithin) hconn⟩

end CppHttpd
