import CppHttpd.Server.ConnectionInvariant

/-!
# The idle timeout

A worker closes connections that have been waiting for a request for too long.
It counts from `accepted_at`, which `reset_conn_to_reading` leaves as it is.
Here the time at which the last response of a connection was completed is kept
beside the worker.
-/

namespace CppHttpd

open CppHttpd.Foundation

/-! ## `accepted_at` is written once -/

theorem processReadable_acceptedAt {W : Type*} (h : Handler W) (w : W) (state : ConnState)
    (result : ReadResult) :
    (processReadable h w state result).state.acceptedAt = state.acceptedAt := by
  cases result with
  | ok data =>
      have hout := processReadable_outcome h w state data
      generalize processReadable h w state (.ok data) = turn at hout ⊢
      cases hout with
      | ended => rfl
      | answers _ _ _ hstate => rw [hstate]; rfl
      | refuses _ _ hstate => rw [hstate]
      | waits _ _ _ hstate => rw [hstate]
  | again => rfl
  | interrupted => rfl
  | failed => rfl

theorem processWritable_acceptedAt {W : Type*} (w : W) (state : ConnState) (write : SendResult)
    (sendfiles : List SendResult) :
    (processWritable w state write sendfiles).state.acceptedAt = state.acceptedAt := by
  have hout := processWritable_outcome w state write sendfiles
  generalize processWritable w state write sendfiles = turn at hout ⊢
  cases hout with
  | waits course => exact course.acceptedAt
  | breaks course _ => exact course.acceptedAt
  | closes course _ => exact course.acceptedAt
  | resets course _ => exact course.acceptedAt

namespace EventWorker

variable {setting : EventWorkerSetting} {s s' : EventWorker}

def acceptedAt (s : EventWorker) (fd : Fd) : Option Int :=
  (s.conns.lookup fd).map ConnState.acceptedAt

theorem finish_acceptedAt {W : Type*} {fd : Fd} {state : ConnState}
    (hlookup : s.conns.lookup fd = some state) {turn : ConnTurn W}
    (hturn : turn.state.acceptedAt = state.acceptedAt) (closes : List Fd)
    (events : List PollEvent) (now : Int) (toRemove : List Fd) (fd' : Fd) :
    (s.finish fd turn closes events now toRemove).acceptedAt fd' = s.acceptedAt fd' := by
  unfold acceptedAt finish
  by_cases hfd : fd' = fd
  · subst hfd
    rw [AList.lookup_insert, hlookup]
    exact congrArg some hturn
  · rw [AList.lookup_insert_ne hfd]

theorem handleEvent_acceptedAt {answers : EventAnswers} {event : PollEvent}
    {events : List PollEvent} {now : Int} {toRemove : List Fd}
    (hstep : s.handleEvent setting answers event events now toRemove = some s') (fd : Fd) :
    s'.acceptedAt fd = s.acceptedAt fd := by
  unfold EventWorker.handleEvent at hstep
  dsimp only at hstep
  split at hstep
  · cases hstep
    rfl
  · split at hstep
    case h_1 =>
      cases hstep
      rfl
    case h_2 state hlookup =>
      split_ifs at hstep
      · cases hstep
        exact finish_acceptedAt hlookup (processReadable_acceptedAt _ _ _ _) _ _ _ _ fd
      · cases hstep
        exact finish_acceptedAt hlookup (processWritable_acceptedAt _ _ _ _) _ _ _ _ fd
      · cases hstep
        rfl

theorem sweep_acceptedAt {now : Int} {toRemove : List Fd} {fd : Fd} {t : Int}
    (h : (s.sweep setting now toRemove).acceptedAt fd = some t) : s.acceptedAt fd = some t := by
  unfold acceptedAt EventWorker.sweep at h
  rw [removeConns_lookup] at h
  split_ifs at h
  · cases h
  · exact h

/-- What a step does to the connections, as far as their dates are concerned. -/
inductive DateOutcome (s s' : EventWorker) : EventWorkerLabel → Prop
  | accepts {fd : Fd} {clientIp : Bytes} {now : Int}
      (hdates : s'.acceptedAt = Function.update s.acceptedAt fd (some now)) :
      DateOutcome s s' (.accept fd clientIp now)
  | keeps {label : EventWorkerLabel} (hlabel : ∀ fd clientIp now, label ≠ .accept fd clientIp now)
      (hdates : ∀ fd t, s'.acceptedAt fd = some t → s.acceptedAt fd = some t) :
      DateOutcome s s' label

theorem step_dates {label : EventWorkerLabel} (hstep : s.step setting label = some s') :
    DateOutcome s s' label := by
  unfold EventWorker.step at hstep
  split at hstep
  case h_1 events hstage =>
    split_ifs at hstep
    · cases hstep
      refine .keeps nofun fun fd t ht => ?_
      simp [acceptedAt, exit] at ht
    · cases hstep
      exact .keeps nofun fun _ _ ht => ht
  case h_2 fd clientIp now events hstage =>
    split_ifs at hstep
    cases hstep
    refine .accepts (funext fun fd' => ?_)
    unfold acceptedAt addConn
    by_cases hfd : fd' = fd
    · subst hfd
      simp
    · rw [AList.lookup_insert_ne hfd, Function.update_of_ne hfd]
  case h_3 now events hstage =>
    cases hstep
    exact .keeps nofun fun _ _ ht => ht
  case h_4 answers event events now toRemove hstage =>
    exact .keeps nofun fun fd t ht => (handleEvent_acceptedAt hstep fd) ▸ ht
  case h_5 now toRemove hstage =>
    cases hstep
    exact .keeps nofun fun _ _ => sweep_acceptedAt
  case h_6 => cases hstep

end EventWorker

/-! ## The worker with the dates of its connections -/

structure TimedLabel where
  label : EventWorkerLabel
  /-- The clock, when the step completes a response. -/
  clock : Int

structure TimedWorker where
  worker : EventWorker
  accepted : Fd → Int := fun _ => 0
  /-- When the last response was completed, if one was. -/
  completed : Fd → Option Int := fun _ => none

namespace TimedWorker

variable (setting : EventWorkerSetting)

def phase (s : EventWorker) (fd : Fd) : Option Phase := (s.conns.lookup fd).map ConnState.phase

/-- A response is completed, and the connection is kept. -/
def resets (s s' : EventWorker) (fd : Fd) : Bool :=
  phase s fd = some .writing && phase s' fd = some .reading

def step (s : TimedWorker) (l : TimedLabel) : Option TimedWorker :=
  (s.worker.step setting l.label).map fun worker =>
    match l.label with
    | .accept fd _ now =>
        { worker
          accepted := Function.update s.accepted fd now
          completed := Function.update s.completed fd none }
    | _ =>
        { s with
          worker
          completed := fun fd =>
            if resets s.worker worker fd then some l.clock else s.completed fd }

/-- The later of the acceptance of a connection and the completion of its last response. -/
def lastActive (s : TimedWorker) (fd : Fd) : Int :=
  (s.completed fd).elim (s.accepted fd) (max (s.accepted fd))

/-- The timeout sweep, if this is the next step, takes only connections that were idle for as long
as the timeout says. -/
def SweepsIdle (s : TimedWorker) (l : TimedLabel) : Prop :=
  l.label = .sweep → ∀ now toRemove, s.worker.stage = .serving [] now toRemove →
    ∀ fd ∈ s.worker.timedOut setting now, setting.timeoutSeconds ≤ now - s.lastActive fd

/-- No connection that waits for a further request is seen at a time when the timeout has passed
since `accept`, but not since its last response. -/
def OutsideWindow (s : TimedWorker) (l : TimedLabel) : Prop :=
  l.label = .sweep → ∀ now toRemove, s.worker.stage = .serving [] now toRemove →
    ∀ fd t, phase s.worker fd = some .reading → s.completed fd = some t →
      ¬ (s.accepted fd + setting.timeoutSeconds ≤ now ∧ now < t + setting.timeoutSeconds)

end TimedWorker

def timedWorker (setting : EventWorkerSetting) : Machine TimedWorker TimedLabel where
  init s := s = { worker := .start setting }
  step := TimedWorker.step setting

namespace TimedWorker

variable {setting : EventWorkerSetting} {s s' : TimedWorker} {l : TimedLabel}

def Dated (s : TimedWorker) : Prop :=
  ∀ fd t, s.worker.acceptedAt fd = some t → t = s.accepted fd

theorem Dated.step (h : Dated s) (hstep : s.step setting l = some s') : Dated s' := by
  obtain ⟨worker, hworker, hs'⟩ := Option.map_eq_some_iff.1 hstep
  obtain ⟨label, clock⟩ := l
  have hout := EventWorker.step_dates hworker
  cases hout with
  | @accepts fd clientIp now hdates =>
      cases hs'
      intro fd' t ht
      dsimp only at ht ⊢
      rw [hdates] at ht
      by_cases hfd : fd' = fd
      · subst hfd
        rw [Function.update_self] at ht ⊢
        exact (Option.some.inj ht).symm
      · rw [Function.update_of_ne hfd] at ht ⊢
        exact h fd' t ht
  | keeps hlabel hdates =>
      have hsame : s'.worker = worker ∧ s'.accepted = s.accepted := by
        cases label with
        | accept fd clientIp now => exact absurd rfl (hlabel fd clientIp now)
        | _ =>
            cases hs'
            exact ⟨rfl, rfl⟩
      intro fd t ht
      rw [hsame.1] at ht
      rw [hsame.2]
      exact h fd t (hdates fd t ht)

theorem dated_of_reached (h : (timedWorker setting).Reached s) : Dated s := by
  apply h.invariant
  · rintro s rfl fd t ht
    simp [EventWorker.acceptedAt, EventWorker.start] at ht
  · intro s l s' hdated _ hstep
    exact hdated.step hstep

theorem mem_timedOut {s : EventWorker} {now : Int} {fd : Fd} :
    fd ∈ s.timedOut setting now ↔ 0 < setting.timeoutSeconds ∧ phase s fd = some .reading ∧
      ∃ t, s.acceptedAt fd = some t ∧ setting.timeoutSeconds ≤ now - t := by
  unfold EventWorker.timedOut phase EventWorker.acceptedAt
  rw [List.mem_map]
  constructor
  · rintro ⟨⟨fd, state⟩, hentry, rfl⟩
    obtain ⟨hmem, htimed⟩ := List.mem_filter.1 hentry
    rw [← AList.mem_lookup_iff] at hmem
    simp only [LoopState.timedOut, decide_eq_true_eq] at htimed
    obtain ⟨hpos, hreading, hage⟩ := htimed
    exact ⟨hpos, by rw [hmem, Option.map_some, hreading], state.acceptedAt, by rw [hmem]; rfl, hage⟩
  · rintro ⟨hpos, hreading, t, ht, hage⟩
    obtain ⟨state, hlookup, rfl⟩ := Option.map_eq_some_iff.1 ht
    rw [hlookup, Option.map_some, Option.some_inj] at hreading
    refine ⟨⟨fd, state⟩, List.mem_filter.2 ⟨AList.mem_lookup_iff.1 hlookup, ?_⟩, rfl⟩
    simp [LoopState.timedOut, hpos, hreading, hage]

theorem lastActive_le_iff {fd : Fd} {t : Int} :
    s.lastActive fd ≤ t ↔ s.accepted fd ≤ t ∧ ∀ c, s.completed fd = some c → c ≤ t := by
  unfold lastActive
  cases s.completed fd with
  | none => simp
  | some c =>
      rw [Option.elim_some, Int.max_le]
      simp

/-- A sweep takes no connection too early exactly if none is seen within its window. -/
theorem Dated.sweepsIdle_iff (h : Dated s) (htimeout : 0 < setting.timeoutSeconds) :
    SweepsIdle setting s l ↔ OutsideWindow setting s l := by
  constructor
  · rintro hsweeps hlabel now toRemove hstage fd c hreading hcompleted ⟨haccepted, hrecent⟩
    obtain ⟨state, hlookup, hphase⟩ := Option.map_eq_some_iff.1 hreading
    have hdate : s.worker.acceptedAt fd = some state.acceptedAt := by
      rw [EventWorker.acceptedAt, hlookup]
      rfl
    have hsame := h fd _ hdate
    have hmem : fd ∈ s.worker.timedOut setting now :=
      mem_timedOut.2 ⟨htimeout, hreading, _, hdate, by omega⟩
    have hidle := hsweeps hlabel now toRemove hstage fd hmem
    have hactive := lastActive_le_iff.1 (by omega : s.lastActive fd ≤ now - setting.timeoutSeconds)
    have hbefore := hactive.2 c hcompleted
    omega
  · intro houtside hlabel now toRemove hstage fd hmem
    obtain ⟨-, hreading, t, hdate, hage⟩ := mem_timedOut.1 hmem
    have hsame := h fd t hdate
    have hactive : s.lastActive fd ≤ now - setting.timeoutSeconds := by
      refine lastActive_le_iff.2 ⟨by omega, fun c hcompleted => ?_⟩
      by_contra hrecent
      exact houtside hlabel now toRemove hstage fd c hreading hcompleted ⟨by omega, by omega⟩
    omega

/-- In a run the sweeps take only idle connections exactly if none of them sees a connection
within its window. -/
theorem sweeps_idle_iff (setting : EventWorkerSetting) (htimeout : 0 < setting.timeoutSeconds)
    {trace : List (TimedWorker × TimedLabel)} {s : TimedWorker}
    (h : (timedWorker setting).Run trace s) :
    (∀ x ∈ trace, SweepsIdle setting x.1 x.2) ↔ ∀ x ∈ trace, OutsideWindow setting x.1 x.2 := by
  induction h with
  | init hinit => simp
  | step hrun hstep ih =>
      rw [List.forall_mem_cons, List.forall_mem_cons, ih]
      exact and_congr_left' ((dated_of_reached hrun.reached).sweepsIdle_iff htimeout)

/-! ## A connection that outlives the timeout -/

def idleSetting : EventWorkerSetting where
  wakePipe := 4
  shutdownPipe := 5
  pipes_ne := by decide
  timeoutSeconds := 10
  config := { virtualHosts := [⟨ascii "/", ascii "localhost"⟩] }
  iteration := .inOrder

def loadAnswers : EventAnswers where
  read := .ok (ascii "GET /load HTTP/1.1\r\n\r\n")
  write := .sent 43 (by decide)
  sendfiles := []
  env := .still (.flat []) fun _ => .forkFailed
  others := []
  accepting := true

/-- A connection is accepted at 0, asks at 8, and has its response at 9; the next iteration
is at `now`. -/
def keepAliveRun (now : Int) : List TimedLabel :=
  [.mk (.wait [⟨4, true, false⟩]) 0, .mk (.accept 12 [] 0) 0, .mk (.serve 0) 0,
    .mk (.handle loadAnswers) 0, .mk .sweep 0,
    .mk (.wait [⟨12, true, false⟩]) 8, .mk (.serve 8) 8, .mk (.handle loadAnswers) 8, .mk .sweep 8,
    .mk (.wait [⟨12, false, true⟩]) 9, .mk (.serve 9) 9, .mk (.handle loadAnswers) 9,
    .mk .sweep 9, .mk (.wait []) now, .mk (.serve now) now, .mk .sweep now]

theorem exists_run (now : Int) (hnow : ((timedWorker idleSetting).record []
    { worker := .start idleSetting } (keepAliveRun now)).isSome = true) :
    (timedWorker idleSetting).Run
      (((timedWorker idleSetting).record [] { worker := .start idleSetting }
        (keepAliveRun now)).get hnow).1
      (((timedWorker idleSetting).record [] { worker := .start idleSetting }
        (keepAliveRun now)).get hnow).2 :=
  (Machine.Run.init rfl).record (keepAliveRun now) (Option.some_get hnow).symm

/-- When the next iteration is at 19, it has waited for the time of the timeout. -/
theorem sweeps_idle_iff_late :
    ∃ trace s, (timedWorker idleSetting).Run trace s ∧ s.completed 12 = some 9 ∧
      s.worker.conns.lookup 12 = none ∧
      ((∀ x ∈ trace, SweepsIdle idleSetting x.1 x.2) ↔
        ∀ x ∈ trace, OutsideWindow idleSetting x.1 x.2) :=
  ⟨_, _, exists_run 19 rfl, rfl, rfl,
    sweeps_idle_iff idleSetting (by decide) (exists_run 19 rfl)⟩

/-- When it is at 10, the connection is closed one second after its response. -/
theorem idle_sweep_cuts_keep_alive :
    ∃ trace s, (timedWorker idleSetting).Run trace s ∧ s.completed 12 = some 9 ∧
      s.worker.conns.lookup 12 = none ∧ ¬ ∀ x ∈ trace, SweepsIdle idleSetting x.1 x.2 := by
  refine ⟨_, _, exists_run 10 rfl, rfl, rfl, fun hall => ?_⟩
  have hlast := hall _ List.mem_cons_self rfl 10 [] rfl 12 (by decide)
  exact absurd hlast (by decide)

end TimedWorker

end CppHttpd
