import CppHttpd.Server.LoopsShutdown

/-!
# Handing connections to the workers

A connection is pushed before its wake byte is written, and popped after one was
read, so the queue is as long as the bytes that are still to be answered.  It
does not matter which byte a connection came with, or which worker reads it.
-/

namespace CppHttpd

open CppHttpd.Foundation

/-- The pops that are due for the bytes a worker has read. -/
def WorkerStage.outstanding : WorkerStage → Nat
  | .popping n => n
  | .adding _ n => n
  | _ => 0

/-- What was popped and is not yet in `conns`. -/
def WorkerStage.inHand : WorkerStage → List Client
  | .adding client _ => [client]
  | _ => []

/-- How far a worker is from waiting, twice for each pop. -/
def WorkerStage.weight : WorkerStage → Nat
  | .starting => 5
  | .waiting => 0
  | .readingShutdown => 1
  | .draining => 1
  | .popping n => 2 * n + 2
  | .adding _ n => 2 * n + 3
  | .left => 0

/-- The wake byte of the connection that was pushed last. -/
def AcceptorStage.owed : AcceptorStage → Nat
  | .waking => 1
  | _ => 0

def AcceptorStage.inHand : AcceptorStage → List Client
  | .pushing client => [client]
  | _ => []

namespace LoopWorker

def outstanding (worker : LoopWorker) : Nat := worker.stage.outstanding

def holds (number : Nat) (worker : LoopWorker) : Nat :=
  occurrences number worker.stage.inHand + occurrences number worker.entered

def weight (worker : LoopWorker) : Nat :=
  worker.stage.weight + 2 * worker.wakePending.toNat + 2 * worker.shutdownPending.toNat

end LoopWorker

namespace SelectLoops

variable {n : Nat}

/-- How often a connection is with the acceptor, in the queue or with a worker. -/
def places (s : SelectLoops n) (number : Nat) : Nat :=
  occurrences number s.acceptor.inHand + occurrences number s.clientQueue +
    total (LoopWorker.holds number) s.workers

/-! ## The accounts -/

structure Accounted (s : SelectLoops n) : Prop where
  counted : s.clientQueue.length =
    s.wakePipe + total LoopWorker.outstanding s.workers + s.acceptor.owed
  placed : ∀ number, s.places number = if number < s.accepted then 1 else 0

/-- What a worker takes from the queue or the pipe, it holds or has to answer. -/
theorem Accounted.of_update {s s' : SelectLoops n} (h : Accounted s) {w : Fin n}
    {worker : LoopWorker} (hworkers : s'.workers = Function.update s.workers w worker)
    (hacceptor : s'.acceptor = s.acceptor) (haccepted : s'.accepted = s.accepted)
    (hcounted : s'.clientQueue.length + s.wakePipe + (s.workers w).outstanding =
      s.clientQueue.length + s'.wakePipe + worker.outstanding)
    (hplaced : ∀ number, occurrences number s'.clientQueue + worker.holds number =
      occurrences number s.clientQueue + (s.workers w).holds number) : Accounted s' where
  counted := by
    have htotal := total_update LoopWorker.outstanding s.workers w worker
    have hbefore := h.counted
    rw [hworkers, hacceptor]
    omega
  placed number := by
    have htotal := total_update (LoopWorker.holds number) s.workers w worker
    have hbefore := h.placed number
    have hmoved := hplaced number
    rw [haccepted, ← hbefore]
    unfold places
    rw [hworkers, hacceptor]
    omega

/-- As many connections are queued as pops are due. -/
theorem Accounted.queue_ne_nil {s : SelectLoops n} (h : Accounted s) {w : Fin n} {k : Nat}
    (hstage : (s.workers w).stage = .popping (k + 1)) : s.clientQueue ≠ [] := by
  intro hempty
  have hdue : (s.workers w).outstanding ≤ total LoopWorker.outstanding s.workers := le_total w
  have hcounted := h.counted
  rw [LoopWorker.outstanding, hstage] at hdue
  rw [hempty, List.length_nil] at hcounted
  simp only [WorkerStage.outstanding] at hdue
  omega

theorem stageAfterWait_holds_nothing (shutdown wake : Bool) :
    (stageAfterWait shutdown wake).outstanding = 0 ∧
      (stageAfterWait shutdown wake).inHand = [] := by
  cases shutdown <;> cases wake <;> exact ⟨rfl, rfl⟩

theorem Accounted.worker {s s' : SelectLoops n} (h : Accounted s) {w : Fin n}
    (houtcome : WorkerOutcome s w s') : Accounted s' := by
  cases houtcome with
  | told shutdown wake hstage =>
      obtain ⟨hnone, hempty⟩ := stageAfterWait_holds_nothing
        (shutdown && s.shutdownPipe > 0) (wake && s.wakePipe > 0)
      refine h.of_update rfl rfl rfl ?_ fun number => ?_
      · simp only [setWorker, LoopWorker.outstanding, hstage, hnone]
        rfl
      · simp only [setWorker, LoopWorker.holds, hstage, hempty]
        rfl
  | starts hstage | leaves hstage | drained hstage | answered hstage =>
      refine h.of_update rfl rfl rfl ?_ fun number => ?_
      · simp [setWorker, LoopWorker.outstanding, hstage, WorkerStage.outstanding]
      · simp [setWorker, LoopWorker.holds, hstage, WorkerStage.inHand]
  | drains hstage hcount =>
      refine h.of_update rfl rfl rfl ?_ fun number => ?_
      · simp only [setWorker, LoopWorker.outstanding, hstage, WorkerStage.outstanding]
        omega
      · simp [setWorker, LoopWorker.holds, hstage, WorkerStage.inHand]
  | popsNothing hstage hempty => exact absurd hempty (h.queue_ne_nil hstage)
  | @pops _ _ rest hstage hqueue =>
      refine h.of_update rfl rfl rfl ?_ fun number => ?_
      · simp only [setWorker, LoopWorker.outstanding, hstage, hqueue, WorkerStage.outstanding,
          List.length_cons]
        omega
      · simp only [LoopWorker.holds, hstage, hqueue, WorkerStage.inHand, occurrences_nil]
        rw [occurrences_cons number _ rest]
        omega
  | adds hstage =>
      refine h.of_update rfl rfl rfl ?_ fun number => ?_
      · simp [setWorker, LoopWorker.outstanding, hstage, WorkerStage.outstanding]
      · simp only [setWorker, LoopWorker.holds, hstage, WorkerStage.inHand, occurrences_nil,
          occurrences_append]
        omega

/-- What leaves the acceptor's hand is queued, and what is pushed is owed a byte. -/
theorem Accounted.of_acceptor {s s' : SelectLoops n} (h : Accounted s)
    (houtstanding : ∀ w, (s'.workers w).outstanding = (s.workers w).outstanding)
    (hholds : ∀ number w, (s'.workers w).holds number = (s.workers w).holds number)
    (hcounted : s'.clientQueue.length + s.wakePipe + s.acceptor.owed =
      s.clientQueue.length + s'.wakePipe + s'.acceptor.owed)
    (hplaced : ∀ number, occurrences number s'.acceptor.inHand +
        occurrences number s'.clientQueue + (if number < s.accepted then 1 else 0) =
      occurrences number s.acceptor.inHand + occurrences number s.clientQueue +
        if number < s'.accepted then 1 else 0) : Accounted s' where
  counted := by
    have htotal : total LoopWorker.outstanding s'.workers =
        total LoopWorker.outstanding s.workers := Finset.sum_congr rfl fun w _ => houtstanding w
    have hbefore := h.counted
    omega
  placed number := by
    have htotal : total (LoopWorker.holds number) s'.workers =
        total (LoopWorker.holds number) s.workers := Finset.sum_congr rfl fun w _ => hholds number w
    have hbefore := h.placed number
    have hmoved := hplaced number
    unfold places at hbefore ⊢
    omega

theorem Accounted.step {s s' : SelectLoops n} (h : Accounted s) {l : LoopsLabel n}
    (hstep : s.step l = some s') : Accounted s' := by
  cases step_outcome hstep with
  | worker _ houtcome => exact h.worker houtcome
  | entersShutdown | writesShutdown | endsInput => exact ⟨h.counted, h.placed⟩
  | interrupted => exact h
  | fails hstage | turns _ hstage | isReady hstage | acceptorLeaves hstage
  | acceptFails hstage =>
      exact h.of_acceptor (fun _ => rfl) (fun _ _ => rfl)
        (by simp [hstage, AcceptorStage.owed]) fun _ => by simp [hstage, AcceptorStage.inHand]
  | loads hstage =>
      refine h.of_acceptor (fun _ => rfl) (fun _ _ => rfl) ?_ fun _ => ?_
      · cases s.acceptingConnections <;> simp [hstage, AcceptorStage.owed]
      · cases s.acceptingConnections <;> simp [hstage, AcceptorStage.inHand]
  | accepts fd clientIp hstage =>
      refine h.of_acceptor (fun _ => rfl) (fun _ _ => rfl)
        (by simp [hstage, AcceptorStage.owed]) fun number => ?_
      simp only [hstage, AcceptorStage.inHand, occurrences_singleton, occurrences_nil]
      split_ifs <;> omega
  | pushes hstage =>
      refine h.of_acceptor (fun _ => rfl) (fun _ _ => rfl) ?_ fun number => ?_
      · simp only [hstage, AcceptorStage.owed, List.length_append, List.length_singleton]
        omega
      · simp only [hstage, AcceptorStage.inHand, occurrences_nil, occurrences_append]
        omega
  | wakes hstage =>
      refine h.of_acceptor (fun _ => rfl) (fun _ _ => rfl) ?_ fun number => ?_
      · simp only [hstage, AcceptorStage.owed]
        omega
      · simp [hstage, AcceptorStage.inHand]

/-- Every worker knows of the wake bytes, or will look before it waits again. -/
def Noticed (s : SelectLoops n) : Prop :=
  0 < s.wakePipe → ∀ w, (s.workers w).stage = .waiting → (s.workers w).wakePending = true

/-- Until the shutdown byte is written no worker turns to the shutdown pipe. -/
def AllServing (s : SelectLoops n) : Prop :=
  s.management ≠ .done → s.shutdownPipe = 0 ∧
    ∀ w, (s.workers w).stage ≠ .readingShutdown ∧ (s.workers w).stage ≠ .left

theorem Noticed.of_update {s s' : SelectLoops n} (h : Noticed s) {w : Fin n}
    {worker : LoopWorker} (hworkers : s'.workers = Function.update s.workers w worker)
    (hpipe : 0 < s'.wakePipe → 0 < s.wakePipe)
    (hworker : 0 < s'.wakePipe → worker.stage = .waiting → worker.wakePending = true) :
    Noticed s' := by
  intro hpos v hwaiting
  rw [hworkers] at hwaiting ⊢
  by_cases hv : v = w
  · subst hv
    rw [Function.update_self] at hwaiting ⊢
    exact hworker hpos hwaiting
  · rw [Function.update_of_ne hv] at hwaiting ⊢
    exact h (hpipe hpos) v hwaiting

theorem Noticed.worker {s s' : SelectLoops n} (h : Noticed s) {w : Fin n}
    (houtcome : WorkerOutcome s w s') : Noticed s' := by
  cases houtcome with
  | starts => exact h.of_update rfl id fun hpos _ => decide_eq_true hpos
  | told shutdown wake hstage _ hwake =>
      refine h.of_update rfl id fun hpos hwaiting => ?_
      have hpending := h hpos w hstage
      cases wake with
      | false => simpa using hpending
      | true =>
          have hpipe : 0 < s.wakePipe := hpos
          dsimp only at hwaiting
          unfold stageAfterWait at hwaiting
          split_ifs at hwaiting with _ hdrain
          simp [hpipe] at hdrain
  | drained _ hempty => exact h.of_update rfl id fun hpos => by simp [setWorker, hempty] at hpos
  | drains => exact h.of_update rfl (fun hpos => by dsimp only at hpos; omega) (by simp)
  | leaves | answered | popsNothing | pops | adds => exact h.of_update rfl id (by simp)

theorem Noticed.of_workers {s s' : SelectLoops n} (h : Noticed s)
    (hpipe : s'.wakePipe = s.wakePipe)
    (hstage : ∀ w, (s'.workers w).stage = (s.workers w).stage)
    (hpending : ∀ w, (s'.workers w).wakePending = (s.workers w).wakePending) : Noticed s' := by
  intro hpos w hwaiting
  rw [hpending]
  exact h (hpipe ▸ hpos) w (hstage w ▸ hwaiting)

theorem Noticed.step {s s' : SelectLoops n} (h : Noticed s) {l : LoopsLabel n}
    (hstep : s.step l = some s') : Noticed s' := by
  cases step_outcome hstep with
  | worker _ houtcome => exact h.worker houtcome
  | wakes => exact fun _ _ _ => rfl
  | _ => exact h.of_workers rfl (fun _ => rfl) fun _ => rfl

theorem AllServing.worker {s s' : SelectLoops n} (h : AllServing s) {w : Fin n}
    (houtcome : WorkerOutcome s w s') : AllServing s' := by
  have hupdate {t : SelectLoops n} {worker : LoopWorker}
      (hworkers : t.workers = Function.update s.workers w worker)
      (hmanagement : t.management = s.management) (hpipe : t.shutdownPipe = s.shutdownPipe)
      (hworker : s.shutdownPipe = 0 →
        worker.stage ≠ .readingShutdown ∧ worker.stage ≠ .left) : AllServing t := by
    intro hdone
    obtain ⟨hzero, hall⟩ := h (hmanagement ▸ hdone)
    refine ⟨hpipe.trans hzero, fun v => ?_⟩
    rw [hworkers]
    by_cases hv : v = w
    · subst hv
      rw [Function.update_self]
      exact hworker hzero
    · rw [Function.update_of_ne hv]
      exact hall v
  cases houtcome with
  | leaves hstage =>
      intro hdone
      exact absurd hstage ((h hdone).2 w).1
  | told shutdown wake =>
      refine hupdate rfl rfl rfl fun hzero => ?_
      cases wake <;> by_cases hpipe : 0 < s.wakePipe <;> simp [stageAfterWait, hzero, hpipe]
  | starts | drained | drains | answered | popsNothing | pops | adds =>
      exact hupdate rfl rfl rfl fun _ => ⟨by simp, by simp⟩

theorem AllServing.step {s s' : SelectLoops n} (h : AllServing s) {l : LoopsLabel n}
    (hstep : s.step l = some s') : AllServing s' := by
  cases step_outcome hstep with
  | worker _ houtcome => exact h.worker houtcome
  | entersShutdown hlistening | endsInput hlistening => exact fun _ => h (by simp [hlistening])
  | writesShutdown => exact fun hdone => absurd rfl hdone
  | acceptorLeaves _ hpipe =>
      intro hdone
      have hzero := (h hdone).1
      omega
  | _ => exact h

def Quiet (s : SelectLoops n) : Prop :=
  ∀ w act s', s.workerStep w act = some s' → s' = s

theorem Quiet.stage_eq {s : SelectLoops n} (h : Quiet s) (w : Fin n) (act : WorkerAct)
    {t : SelectLoops n} (hstep : s.workerStep w act = some t) :
    (t.workers w).stage = (s.workers w).stage ∧
      (t.workers w).wakePending = (s.workers w).wakePending := by
  rw [h w act t hstep]
  exact ⟨rfl, rfl⟩

/-- A worker that serves has something to do, unless it waits and knows of no wake byte. -/
theorem Quiet.waiting {s : SelectLoops n} (h : Quiet s) {w : Fin n}
    (hserving : (s.workers w).stage ≠ .readingShutdown ∧ (s.workers w).stage ≠ .left) :
    (s.workers w).stage = .waiting ∧ (s.workers w).wakePending = false := by
  cases hstage : (s.workers w).stage with
  | waiting =>
      refine ⟨rfl, ?_⟩
      by_contra hpending
      rw [Bool.not_eq_false] at hpending
      have hstep := (h.stage_eq w (.wait false true)
        (by simp only [workerStep, hstage, hpending]; rfl)).2
      simp [setWorker, hpending] at hstep
  | starting =>
      have hstep := (h.stage_eq w .start
        (by simp only [workerStep, hstage]; rfl)).1
      simp [setWorker, hstage] at hstep
  | draining =>
      by_cases hempty : s.wakePipe = 0
      · have hstep := (h.stage_eq w .drain
          (by simp only [workerStep, hstage, hempty]; rfl)).1
        simp [setWorker, hstage] at hstep
      · have hstep := (h.stage_eq w .drain
          (by simp only [workerStep, hstage, if_neg hempty]; rfl)).1
        simp [setWorker, hstage] at hstep
  | popping k =>
      cases k with
      | zero =>
          have hstep := (h.stage_eq w .pop
            (by simp only [workerStep, hstage]; rfl)).1
          simp [setWorker, hstage] at hstep
      | succ k =>
          cases hqueue : s.clientQueue with
          | nil =>
              have hstep := (h.stage_eq w .pop
                (by simp only [workerStep, hstage, hqueue]; rfl)).1
              simp [setWorker, hstage] at hstep
          | cons client rest =>
              have hstep := (h.stage_eq w .pop
                (by simp only [workerStep, hstage, hqueue]; rfl)).1
              simp [setWorker, hstage] at hstep
  | adding client k =>
      have hstep := (h.stage_eq w .add
        (by simp only [workerStep, hstage]; rfl)).1
      simp [setWorker, hstage] at hstep
  | readingShutdown => exact absurd hstage hserving.1
  | left => exact absurd hstage hserving.2

/-- Nothing is between `accept` and `conns`. -/
structure Settled (s : SelectLoops n) : Prop where
  acceptor : s.acceptor.inHand = [] ∧ s.acceptor.owed = 0
  pipe : s.wakePipe = 0
  workers : ∀ w, (s.workers w).outstanding = 0 ∧ (s.workers w).stage.inHand = []

theorem Accounted.entered {s : SelectLoops n} (h : Accounted s) (hsettled : Settled s)
    {number : Nat} (hnumber : number < s.accepted) :
    ∃! w, occurrences number (s.workers w).entered = 1 := by
  have hqueue : s.clientQueue = [] := by
    have hnone := total_eq_zero.2 fun w => (hsettled.workers w).1
    have hcounted := h.counted
    rw [hsettled.pipe, hnone, hsettled.acceptor.2] at hcounted
    exact List.eq_nil_of_length_eq_zero hcounted
  have hplaced := h.placed number
  rw [if_pos hnumber] at hplaced
  have hone : total (LoopWorker.holds number) s.workers = 1 := by
    simpa [places, hsettled.acceptor.1, hqueue] using hplaced
  obtain ⟨w, hw, hunique⟩ := existsUnique_of_total_eq_one hone
  have hholds v : (s.workers v).holds number = occurrences number (s.workers v).entered := by
    simp [LoopWorker.holds, (hsettled.workers v).2]
  refine ⟨w, (hholds w).symm.trans hw, fun v hv => hunique v ((hholds v).trans hv)⟩

/-! ## The workers come to rest -/

end SelectLoops

end CppHttpd
