import CppHttpd.Server.SelectLoops

/-!
# Shutdown in event-loop mode

`management_thread_func` writes one byte, and every thread that leaves its loop
for it reads one.  So the shutdown reaches all of them only as long as no thread
takes the byte while another one is still in its loop.
-/

namespace CppHttpd

open CppHttpd.Foundation

inductive Reader (n : Nat) where
  | acceptor
  | worker (w : Fin n)
  deriving DecidableEq

namespace SelectLoops

variable {n : Nat}

def ShutdownEntered (s : SelectLoops n) : Prop :=
  s.management = .stored ∨ s.management = .done

def InLoop (s : SelectLoops n) : Reader n → Prop
  | .acceptor => s.acceptor ≠ .left
  | .worker w => (s.workers w).stage ≠ .left

/-- A byte can be read from the shutdown pipe, now or after the write that is due. -/
def CanObserve (s : SelectLoops n) : Prop := 0 < s.shutdownPipe ∨ s.management = .stored

/-- No thread is left in its loop without a byte that tells it of the shutdown. -/
def ShutdownObservable (s : SelectLoops n) : Prop :=
  s.ShutdownEntered → ∀ reader, s.InLoop reader → s.CanObserve

/-- The thread that takes a byte out of the shutdown pipe in a step. -/
def takesShutdown : LoopsLabel n → Option (Reader n)
  | .acceptorReads => some .acceptor
  | .worker w .readShutdown => some (.worker w)
  | _ => none

/-- The shutdown byte is not taken from a thread that is still in its loop. -/
def TakenByLast (s : SelectLoops n) (l : LoopsLabel n) : Prop :=
  ∀ reader, takesShutdown l = some reader → ∀ other, s.InLoop other → other = reader

/-! ## What a step does to the shutdown pipe -/

/-- The management thread goes on, or nothing happens to the shutdown. -/
inductive ShutdownCourse (s s' : SelectLoops n) : Prop
  | same (hpipe : s'.shutdownPipe = s.shutdownPipe) (hmanagement : s'.management = s.management)
  | enters (hpipe : s'.shutdownPipe = s.shutdownPipe) (hlistening : s.management = .listening)
      (hstored : s'.management = .stored)
  | ends (hpipe : s'.shutdownPipe = s.shutdownPipe) (hlistening : s.management = .listening)
      (hended : s'.management = .inputEnded)
  | writes (hpipe : s'.shutdownPipe = s.shutdownPipe + 1) (hstored : s.management = .stored)
      (hdone : s'.management = .done)

theorem inLoop_of_update {s s' : SelectLoops n} {w : Fin n} {worker : LoopWorker}
    (hacceptor : s'.acceptor = s.acceptor)
    (hworkers : s'.workers = Function.update s.workers w worker)
    (hstage : (s.workers w).stage ≠ .left) {reader : Reader n} (h : s'.InLoop reader) :
    s.InLoop reader := by
  cases reader with
  | acceptor => rwa [InLoop, hacceptor] at h
  | worker v =>
      by_cases hv : v = w
      · subst hv
        exact hstage
      · simpa [InLoop, hworkers, hv] using h

/-- A worker that takes a step is in its loop, and touches no other thread. -/
theorem WorkerOutcome.frame {s s' : SelectLoops n} {w : Fin n} (h : WorkerOutcome s w s') :
    (s.workers w).stage ≠ .left ∧ (∃ worker, s'.workers = Function.update s.workers w worker) ∧
      s'.acceptor = s.acceptor ∧ s'.management = s.management := by
  cases h <;> exact ⟨by simp [*], ⟨_, rfl⟩, rfl, rfl⟩

theorem WorkerOutcome.inLoop {s s' : SelectLoops n} {w : Fin n} (h : WorkerOutcome s w s')
    {reader : Reader n} (hin : s'.InLoop reader) : s.InLoop reader := by
  obtain ⟨hstage, ⟨worker, hworkers⟩, hacceptor, -⟩ := h.frame
  exact inLoop_of_update hacceptor hworkers hstage hin

structure LeavesByte (s s' : SelectLoops n) : Prop where
  course : ShutdownCourse s s'
  inLoop : ∀ reader, s'.InLoop reader → s.InLoop reader
  stays : ∀ w, s.InLoop (.worker w) → s'.InLoop (.worker w)

theorem stageAfterWait_ne_left (shutdown wake : Bool) : stageAfterWait shutdown wake ≠ .left := by
  cases shutdown <;> cases wake <;> simp [stageAfterWait]

theorem inLoop_setWorker {s : SelectLoops n} {w : Fin n} {worker : LoopWorker}
    (hworker : worker.stage ≠ .left) (v : Fin n) (h : s.InLoop (.worker v)) :
    (s.setWorker w worker).InLoop (.worker v) := by
  by_cases hv : v = w
  · subst hv
    simpa [InLoop, setWorker] using hworker
  · simpa [InLoop, setWorker, hv] using h

theorem workerStep_leavesByte {s s' : SelectLoops n} {w : Fin n} {act : WorkerAct}
    (hact : takesShutdown (.worker w act) = none) (h : s.workerStep w act = some s') :
    LeavesByte s s' := by
  have houtcome := workerStep_outcome h
  obtain ⟨-, -, -, hmanagement⟩ := houtcome.frame
  refine ⟨.same ?_ hmanagement, fun _ => houtcome.inLoop, ?_⟩
  · cases houtcome with
    | leaves hstage =>
        cases act <;> simp [workerStep, hstage] at h
        cases hact
    | _ => rfl
  · cases houtcome with
    | leaves hstage =>
        cases act <;> simp [workerStep, hstage] at h
        cases hact
    | told => exact inLoop_setWorker (stageAfterWait_ne_left _ _)
    | _ => exact inLoop_setWorker (by simp)

theorem inLoop_of_stages {s s' : SelectLoops n}
    (hacceptor : s'.acceptor ≠ .left → s.acceptor ≠ .left)
    (hworkers : ∀ w, (s'.workers w).stage = (s.workers w).stage) (reader : Reader n)
    (h : s'.InLoop reader) : s.InLoop reader := by
  cases reader with
  | acceptor => exact hacceptor h
  | worker w => rwa [InLoop, hworkers] at h

theorem step_leavesByte {s s' : SelectLoops n} {l : LoopsLabel n}
    (hl : takesShutdown l = none) (h : s.step l = some s') : LeavesByte s s' := by
  cases step_outcome h with
  | worker hstep => exact workerStep_leavesByte hl hstep
  | acceptorLeaves => cases hl
  | entersShutdown hlistening =>
      exact ⟨.enters rfl hlistening rfl, inLoop_of_stages id fun _ => rfl, fun _ => id⟩
  | writesShutdown hstored =>
      exact ⟨.writes rfl hstored rfl, inLoop_of_stages id fun _ => rfl, fun _ => id⟩
  | endsInput hlistening =>
      exact ⟨.ends rfl hlistening rfl, inLoop_of_stages id fun _ => rfl, fun _ => id⟩
  | interrupted => exact ⟨.same rfl rfl, fun _ => id, fun _ => id⟩
  | fails hstage | turns _ hstage | isReady hstage | loads hstage | accepts _ _ hstage
  | acceptFails hstage | pushes hstage | wakes hstage =>
      exact ⟨.same rfl rfl, inLoop_of_stages (fun _ => by simp [hstage]) fun _ => rfl,
        fun _ => id⟩

/-- A thread that takes a byte leaves its loop, and it is the only one that does. -/
structure Takes (s s' : SelectLoops n) (reader : Reader n) : Prop where
  pipe : s.shutdownPipe = s'.shutdownPipe + 1
  management : s'.management = s.management
  inLoop : s.InLoop reader
  inLoop_iff : ∀ other, s'.InLoop other ↔ s.InLoop other ∧ other ≠ reader

theorem step_takes {s s' : SelectLoops n} {l : LoopsLabel n} {reader : Reader n}
    (hl : takesShutdown l = some reader) (h : s.step l = some s') : Takes s s' reader := by
  unfold takesShutdown at hl
  split at hl
  · cases hl
    simp only [step] at h
    split_ifs at h with hready
    cases h
    refine ⟨(Nat.sub_add_cancel hready.2).symm, rfl, by simp [InLoop, hready.1], ?_⟩
    intro other
    cases other <;> simp [InLoop]
  · rename_i w
    cases hl
    simp only [step, workerStep] at h
    split_ifs at h with hready
    cases h
    refine ⟨(Nat.sub_add_cancel hready.2).symm, rfl, by simp [InLoop, hready.1], ?_⟩
    intro other
    cases other with
    | acceptor => simp [InLoop, setWorker]
    | worker v =>
        by_cases hv : v = w
        · subst hv
          simp [InLoop, setWorker]
        · simp [InLoop, setWorker, hv]
  · cases hl

/-! ## The one byte -/

def OneByte (s : SelectLoops n) : Prop :=
  s.shutdownPipe ≤ 1 ∧ (s.management ≠ .done → s.shutdownPipe = 0)

theorem OneByte.step {s s' : SelectLoops n} (hone : OneByte s) {l : LoopsLabel n}
    (h : s.step l = some s') : OneByte s' := by
  obtain ⟨hle, hnone⟩ := hone
  cases hl : takesShutdown l with
  | none =>
      cases (step_leavesByte hl h).course with
      | same hpipe hmanagement => exact ⟨hpipe ▸ hle, hpipe ▸ hmanagement ▸ hnone⟩
      | enters hpipe hlistening hstored =>
          exact ⟨hpipe ▸ hle, fun _ => hpipe ▸ hnone (by simp [hlistening])⟩
      | ends hpipe hlistening hended =>
          exact ⟨hpipe ▸ hle, fun _ => hpipe ▸ hnone (by simp [hlistening])⟩
      | writes hpipe hstored hdone =>
          have hzero := hnone (by simp [hstored])
          exact ⟨by omega, fun hne => absurd hdone hne⟩
  | some reader =>
      obtain ⟨hpipe, hmanagement, -, -⟩ := step_takes hl h
      exact ⟨by omega, fun _ => by omega⟩

theorem oneByte_of_reached {s : SelectLoops n} (h : (selectLoops n).Reached s) : OneByte s :=
  h.invariant (fun _ hinit => hinit ▸ ⟨Nat.zero_le _, fun _ => rfl⟩)
    fun _ _ _ hone _ hstep => hone.step hstep

/-! ## Who can still observe the shutdown -/

theorem ShutdownObservable.leavesByte {s s' : SelectLoops n} (h : ShutdownObservable s)
    (hleaves : LeavesByte s s') : ShutdownObservable s' := by
  intro hentered reader hreader
  cases hleaves.course with
  | same hpipe hmanagement =>
      have hobserve := h (by rwa [ShutdownEntered, hmanagement] at hentered) reader
        (hleaves.inLoop reader hreader)
      rwa [CanObserve, hpipe, hmanagement]
  | enters _ _ hstored => exact .inr hstored
  | ends _ _ hended => simp [ShutdownEntered, hended] at hentered
  | writes hpipe _ _ => exact .inl (by omega)

theorem ShutdownObservable.takes_iff {s s' : SelectLoops n} (hone : OneByte s)
    {reader : Reader n} (htakes : Takes s s' reader) :
    ShutdownObservable s' ↔ ∀ other, s.InLoop other → other = reader := by
  obtain ⟨hpipe, hmanagement, -, hin⟩ := htakes
  have hdone : s'.management = .done := by
    rw [hmanagement]
    by_contra hne
    have hzero := hone.2 hne
    omega
  have hblind : ¬ s'.CanObserve := by
    have hle := hone.1
    rintro (hpos | hstored)
    · omega
    · rw [hdone] at hstored
      cases hstored
  constructor
  · intro h other hother
    by_contra hne
    exact hblind (h (.inr hdone) other ((hin other).2 ⟨hother, hne⟩))
  · intro hlast _ other hother
    obtain ⟨hother, hne⟩ := (hin other).1 hother
    exact absurd (hlast other hother) hne

/-- The shutdown can be observed by every thread that has not left its loop, throughout a
run, exactly when the byte is only taken by a thread that is the last one in its loop. -/
theorem shutdown_reaches_everyone_iff {trace : List (SelectLoops n × LoopsLabel n)}
    {s : SelectLoops n} (h : (selectLoops n).Run trace s) :
    (s.ShutdownObservable ∧ ∀ x ∈ trace, x.1.ShutdownObservable) ↔
      ∀ x ∈ trace, x.1.TakenByLast x.2 := by
  refine h.always_iff (fun s hinit => ?_) fun s l s' hreached hobservable hstep => ?_
  · subst hinit
    simp [ShutdownObservable, ShutdownEntered]
  · cases hl : takesShutdown l with
    | none =>
        exact iff_of_true (hobservable.leavesByte (step_leavesByte hl hstep))
          fun _ hsome => by simp [hl] at hsome
    | some reader =>
        rw [ShutdownObservable.takes_iff (oneByte_of_reached hreached) (step_takes hl hstep)]
        simp [TakenByLast, hl]

/-- The acceptor leaves because `select` fails, and the worker takes the byte. -/
theorem shutdown_reaches_everyone_iff_last :
    ∃ (trace : List (SelectLoops 1 × LoopsLabel 1)) (s : SelectLoops 1),
      (selectLoops 1).Run trace s ∧ s.management = .done ∧ s.acceptor = .left ∧
        (s.workers 0).stage = .left ∧
        ((s.ShutdownObservable ∧ ∀ x ∈ trace, x.1.ShutdownObservable) ↔
          ∀ x ∈ trace, x.1.TakenByLast x.2) := by
  let labels : List (LoopsLabel 1) := [.worker 0 .start, .select .failed, .enterShutdown,
    .writeShutdown, .worker 0 (.wait true false), .worker 0 .readShutdown]
  have hrun := (Machine.Run.init (M := selectLoops 1) (s := {}) rfl).record labels
    (r := Option.get ((selectLoops 1).record [] {} labels) rfl) rfl
  exact ⟨_, _, hrun, rfl, rfl, rfl, shutdown_reaches_everyone_iff hrun⟩

/-! ## A worker that misses the byte -/

/-- The worker is in its loop, and there will be no byte that it could read. -/
structure Stranded (s : SelectLoops n) (w : Fin n) : Prop where
  done : s.management = .done
  empty : s.shutdownPipe = 0
  inLoop : s.InLoop (.worker w)

theorem Stranded.step {s s' : SelectLoops n} {w : Fin n} (h : Stranded s w) {l : LoopsLabel n}
    (hstep : s.step l = some s') : Stranded s' w := by
  obtain ⟨hdone, hempty, hin⟩ := h
  cases hl : takesShutdown l with
  | some reader =>
      have hpipe := (step_takes hl hstep).pipe
      omega
  | none =>
      have hleaves := step_leavesByte hl hstep
      cases hleaves.course with
      | same hpipe hmanagement =>
          exact ⟨hmanagement ▸ hdone, hpipe ▸ hempty, hleaves.stays w hin⟩
      | enters _ hlistening => simp [hdone] at hlistening
      | ends _ hlistening => simp [hdone] at hlistening
      | writes _ hstored => simp [hdone] at hstored

/-- `run_select_loops` waits for it in `join()` for ever. -/
theorem Stranded.forever {s s' : SelectLoops n} {w : Fin n} (h : Stranded s w)
    (hreached : ((selectLoops n).startingAt s).Reached s') : Stranded s' w :=
  hreached.invariant (fun _ hinit => hinit ▸ h) fun _ _ _ hstranded _ hstep =>
    hstranded.step hstep

/-- With one worker: both threads are told, the acceptor takes the byte and the worker stays
blocked in `read`. -/
theorem shutdown_strands_worker :
    ∃ s : SelectLoops 1, (selectLoops 1).Reached s ∧ ¬ s.ShutdownObservable ∧
      s.acceptor = .left ∧ (s.workers 0).stage = .readingShutdown ∧
      ∀ s', ((selectLoops 1).startingAt s).Reached s' → s'.InLoop (.worker 0) := by
  let labels : List (LoopsLabel 1) := [.worker 0 .start, .enterShutdown, .writeShutdown,
    .worker 0 (.wait true false), .select (.ready false), .acceptorReads]
  have hrun := (Machine.Run.init (M := selectLoops 1) (s := {}) rfl).record labels
    (r := Option.get ((selectLoops 1).record [] {} labels) rfl) rfl
  have hin : WorkerStage.readingShutdown ≠ .left := by decide
  refine ⟨_, hrun.reached, fun hobservable => ?_, rfl, rfl, fun s' hreached => ?_⟩
  · rcases hobservable (.inr rfl) (.worker 0) hin with hpos | hstored
    · cases hpos
    · cases hstored
  · refine (Stranded.forever (w := 0) ?_ hreached).inLoop
    exact ⟨rfl, rfl, hin⟩

end SelectLoops

end CppHttpd
