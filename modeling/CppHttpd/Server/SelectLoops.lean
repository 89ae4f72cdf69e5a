import CppHttpd.Foundation.Threads
import CppHttpd.Foundation.Transition
import CppHttpd.Server.ManagementThread

/-!
# The threads of `run_select_loops`

The management thread, the acceptor and the workers share two pipes, the client
queue under its mutex and `accepting_connections`.  A step is what one of them
does at once: a system call, a critical section, one read or write of the
atomic.  Nothing that a worker does for its connections touches what is shared.
The shutdown pipe is a blocking one and the wake pipe is not; both are far from
full.
-/

namespace CppHttpd

open CppHttpd.Foundation

inductive AcceptorStage where
  | selecting
  | readingShutdown
  /-- The listening socket is readable, `accepting_connections` is not yet looked at. -/
  | loading
  | accepting
  | pushing (client : Client)
  | waking
  | left
  deriving DecidableEq, Repr

inductive WorkerStage where
  | starting
  | waiting
  | readingShutdown
  | draining
  /-- `n` of the bytes that were read are not yet answered by a pop. -/
  | popping (n : Nat)
  | adding (client : Client) (n : Nat)
  | left
  deriving DecidableEq, Repr

structure LoopWorker where
  stage : WorkerStage := .starting
  /-- The pipe is on the ready list of the worker's poller. -/
  wakePending : Bool := false
  shutdownPending : Bool := false
  /-- The connections that were put into `conns`. -/
  entered : List Client := []

structure SelectLoops (n : Nat) where
  management : Management := .listening
  acceptingConnections : Bool := true
  shutdownPipe : Nat := 0
  wakePipe : Nat := 0
  clientQueue : List Client := []
  acceptor : AcceptorStage := .selecting
  workers : Fin n → LoopWorker := fun _ => {}
  /-- How many connections were accepted. -/
  accepted : Nat := 0

inductive WorkerAct where
  | start
  /-- `wait` takes the pipes that are given off the ready list. -/
  | wait (shutdown wake : Bool)
  | readShutdown
  | drain
  | pop
  | add

inductive LoopsLabel (n : Nat) where
  | enterShutdown
  | writeShutdown
  | endInput
  | select (result : SelectResult)
  | acceptorReads
  | load
  | accept (fd : Fd) (clientIp : Bytes)
  | acceptFails
  | push
  | wake
  | worker (w : Fin n) (act : WorkerAct)

/-- The size of the buffer that wake bytes are read into. -/
def WAKE_BUF_SIZE : Nat := 64

namespace SelectLoops

variable {n : Nat}

/-! ## The steps of a worker -/

def setWorker (s : SelectLoops n) (w : Fin n) (worker : LoopWorker) : SelectLoops n :=
  { s with workers := Function.update s.workers w worker }

/-- The stage after `wait` has told of the pipes that are given. -/
def stageAfterWait (shutdown wake : Bool) : WorkerStage :=
  if shutdown then .readingShutdown else if wake then .draining else .waiting

def workerStep (s : SelectLoops n) (w : Fin n) : WorkerAct → Option (SelectLoops n)
  | .start =>
      let worker := s.workers w
      if worker.stage = .starting then
        some (s.setWorker w { worker with
          stage := .waiting
          wakePending := s.wakePipe > 0
          shutdownPending := s.shutdownPipe > 0 })
      else none
  | .wait shutdown wake =>
      let worker := s.workers w
      if worker.stage = .waiting ∧ (shutdown → worker.shutdownPending) ∧
          (wake → worker.wakePending) then
        some (s.setWorker w { worker with
          -- what is not readable any more is not reported
          stage := stageAfterWait (shutdown && s.shutdownPipe > 0) (wake && s.wakePipe > 0)
          wakePending := worker.wakePending && !wake
          shutdownPending := worker.shutdownPending && !shutdown })
      else none
  | .readShutdown =>
      let worker := s.workers w
      -- the worker is blocked in `read` as long as the pipe is empty
      if worker.stage = .readingShutdown ∧ s.shutdownPipe > 0 then
        some { s.setWorker w { worker with stage := .left } with
          shutdownPipe := s.shutdownPipe - 1 }
      else none
  | .drain =>
      let worker := s.workers w
      if worker.stage = .draining then
        if s.wakePipe = 0 then some (s.setWorker w { worker with stage := .waiting })
        else
          let count := min s.wakePipe WAKE_BUF_SIZE
          some { s.setWorker w { worker with stage := .popping count } with
            wakePipe := s.wakePipe - count }
      else none
  | .pop =>
      let worker := s.workers w
      match worker.stage with
      | .popping 0 => some (s.setWorker w { worker with stage := .draining })
      | .popping (k + 1) =>
          match s.clientQueue with
          | [] => some (s.setWorker w { worker with stage := .popping k })
          | client :: rest =>
              some { s.setWorker w { worker with stage := .adding client k } with
                clientQueue := rest }
      | _ => none
  | .add =>
      let worker := s.workers w
      match worker.stage with
      | .adding client k =>
          some (s.setWorker w { worker with
            stage := .popping k
            entered := worker.entered ++ [client] })
      | _ => none

/-- What a step of a worker does, with what led to it. -/
inductive WorkerOutcome (s : SelectLoops n) (w : Fin n) : SelectLoops n → Prop
  | starts (hstage : (s.workers w).stage = .starting) :
      WorkerOutcome s w (s.setWorker w { s.workers w with
        stage := .waiting
        wakePending := s.wakePipe > 0
        shutdownPending := s.shutdownPipe > 0 })
  | told (shutdown wake : Bool) (hstage : (s.workers w).stage = .waiting)
      (hshutdown : shutdown = true → (s.workers w).shutdownPending = true)
      (hwake : wake = true → (s.workers w).wakePending = true) :
      WorkerOutcome s w (s.setWorker w { s.workers w with
        stage := stageAfterWait (shutdown && s.shutdownPipe > 0) (wake && s.wakePipe > 0)
        wakePending := (s.workers w).wakePending && !wake
        shutdownPending := (s.workers w).shutdownPending && !shutdown })
  | leaves (hstage : (s.workers w).stage = .readingShutdown) (hpipe : 0 < s.shutdownPipe) :
      WorkerOutcome s w { s.setWorker w { s.workers w with stage := .left } with
        shutdownPipe := s.shutdownPipe - 1 }
  | drained (hstage : (s.workers w).stage = .draining) (hempty : s.wakePipe = 0) :
      WorkerOutcome s w (s.setWorker w { s.workers w with stage := .waiting })
  | drains {count : Nat} (hstage : (s.workers w).stage = .draining)
      (hcount : count ≤ s.wakePipe) (hpos : 0 < count) :
      WorkerOutcome s w { s.setWorker w { s.workers w with stage := .popping count } with
        wakePipe := s.wakePipe - count }
  | answered (hstage : (s.workers w).stage = .popping 0) :
      WorkerOutcome s w (s.setWorker w { s.workers w with stage := .draining })
  | popsNothing {k : Nat} (hstage : (s.workers w).stage = .popping (k + 1))
      (hempty : s.clientQueue = []) :
      WorkerOutcome s w (s.setWorker w { s.workers w with stage := .popping k })
  | pops {k : Nat} {client : Client} {rest : List Client}
      (hstage : (s.workers w).stage = .popping (k + 1)) (hqueue : s.clientQueue = client :: rest) :
      WorkerOutcome s w { s.setWorker w { s.workers w with stage := .adding client k } with
        clientQueue := rest }
  | adds {k : Nat} {client : Client} (hstage : (s.workers w).stage = .adding client k) :
      WorkerOutcome s w (s.setWorker w { s.workers w with
        stage := .popping k
        entered := (s.workers w).entered ++ [client] })

theorem workerStep_outcome {s s' : SelectLoops n} {w : Fin n} {act : WorkerAct}
    (h : s.workerStep w act = some s') : WorkerOutcome s w s' := by
  cases act with
  | start =>
      simp only [workerStep] at h
      split_ifs at h with hstage
      cases h
      exact .starts hstage
  | wait shutdown wake =>
      simp only [workerStep] at h
      split_ifs at h with hready
      cases h
      exact .told shutdown wake hready.1 hready.2.1 hready.2.2
  | readShutdown =>
      simp only [workerStep] at h
      split_ifs at h with hready
      cases h
      exact .leaves hready.1 hready.2
  | drain =>
      simp only [workerStep] at h
      split_ifs at h with hstage hempty
      · cases h
        exact .drained hstage hempty
      · cases h
        have hpos : 0 < min s.wakePipe WAKE_BUF_SIZE :=
          Nat.lt_min.2 ⟨Nat.pos_of_ne_zero hempty, by decide⟩
        exact .drains hstage (Nat.min_le_left _ _) hpos
  | pop =>
      simp only [workerStep] at h
      split at h
      · cases h
        exact .answered ‹_›
      · split at h
        · cases h
          exact .popsNothing ‹_› ‹_›
        · cases h
          exact .pops ‹_› ‹_›
      · cases h
  | add =>
      simp only [workerStep] at h
      split at h
      · cases h
        exact .adds ‹_›
      · cases h

/-! ## The other threads -/

def notifyShutdown (worker : LoopWorker) : LoopWorker := { worker with shutdownPending := true }

def notifyWake (worker : LoopWorker) : LoopWorker := { worker with wakePending := true }

def step (s : SelectLoops n) : LoopsLabel n → Option (SelectLoops n)
  | .enterShutdown =>
      if s.management = .listening then
        some { s with management := .stored, acceptingConnections := false }
      else none
  | .writeShutdown =>
      if s.management = .stored then
        some { s with
          management := .done
          shutdownPipe := s.shutdownPipe + 1
          workers := fun w => notifyShutdown (s.workers w) }
      else none
  | .endInput =>
      if s.management = .listening then some { s with management := .inputEnded } else none
  | .select result =>
      if s.acceptor = .selecting then
        match result with
        | .interrupted => some s
        | .failed => some { s with acceptor := .left }
        | .ready listenReadable =>
            if s.shutdownPipe > 0 then some { s with acceptor := .readingShutdown }
            else if listenReadable then some { s with acceptor := .loading }
            else none
      else none
  | .acceptorReads =>
      if s.acceptor = .readingShutdown ∧ s.shutdownPipe > 0 then
        some { s with acceptor := .left, shutdownPipe := s.shutdownPipe - 1 }
      else none
  | .load =>
      if s.acceptor = .loading then
        some { s with acceptor := if s.acceptingConnections then .accepting else .selecting }
      else none
  | .accept fd clientIp =>
      if s.acceptor = .accepting then
        some { s with
          acceptor := .pushing { number := s.accepted, fd, clientIp }
          accepted := s.accepted + 1 }
      else none
  | .acceptFails =>
      if s.acceptor = .accepting then some { s with acceptor := .selecting } else none
  | .push =>
      match s.acceptor with
      | .pushing client =>
          some { s with clientQueue := s.clientQueue ++ [client], acceptor := .waking }
      | _ => none
  | .wake =>
      if s.acceptor = .waking then
        some { s with
          wakePipe := s.wakePipe + 1
          acceptor := .selecting
          workers := fun w => notifyWake (s.workers w) }
      else none
  | .worker w act => s.workerStep w act

/-- What a step does, with what led to it. -/
inductive StepOutcome (s : SelectLoops n) : LoopsLabel n → SelectLoops n → Prop
  | entersShutdown (hlistening : s.management = .listening) :
      StepOutcome s .enterShutdown
        { s with management := .stored, acceptingConnections := false }
  | writesShutdown (hstored : s.management = .stored) :
      StepOutcome s .writeShutdown { s with
        management := .done
        shutdownPipe := s.shutdownPipe + 1
        workers := fun w => notifyShutdown (s.workers w) }
  | endsInput (hlistening : s.management = .listening) :
      StepOutcome s .endInput { s with management := .inputEnded }
  | interrupted (hstage : s.acceptor = .selecting) : StepOutcome s (.select .interrupted) s
  | fails (hstage : s.acceptor = .selecting) :
      StepOutcome s (.select .failed) { s with acceptor := .left }
  | turns (listenReadable : Bool) (hstage : s.acceptor = .selecting) :
      StepOutcome s (.select (.ready listenReadable)) { s with acceptor := .readingShutdown }
  | isReady (hstage : s.acceptor = .selecting) :
      StepOutcome s (.select (.ready true)) { s with acceptor := .loading }
  | acceptorLeaves (hstage : s.acceptor = .readingShutdown) (hpipe : 0 < s.shutdownPipe) :
      StepOutcome s .acceptorReads
        { s with acceptor := .left, shutdownPipe := s.shutdownPipe - 1 }
  | loads (hstage : s.acceptor = .loading) :
      StepOutcome s .load
        { s with acceptor := if s.acceptingConnections then .accepting else .selecting }
  | accepts (fd : Fd) (clientIp : Bytes) (hstage : s.acceptor = .accepting) :
      StepOutcome s (.accept fd clientIp) { s with
        acceptor := .pushing { number := s.accepted, fd, clientIp }
        accepted := s.accepted + 1 }
  | acceptFails (hstage : s.acceptor = .accepting) :
      StepOutcome s .acceptFails { s with acceptor := .selecting }
  | pushes {client : Client} (hstage : s.acceptor = .pushing client) :
      StepOutcome s .push
        { s with clientQueue := s.clientQueue ++ [client], acceptor := .waking }
  | wakes (hstage : s.acceptor = .waking) :
      StepOutcome s .wake { s with
        wakePipe := s.wakePipe + 1
        acceptor := .selecting
        workers := fun w => notifyWake (s.workers w) }
  | worker {w : Fin n} {act : WorkerAct} {s' : SelectLoops n}
      (hstep : s.workerStep w act = some s') (houtcome : WorkerOutcome s w s') :
      StepOutcome s (.worker w act) s'

theorem select_outcome {s s' : SelectLoops n} {result : SelectResult}
    (h : s.step (.select result) = some s') : StepOutcome s (.select result) s' := by
  cases result with
  | interrupted =>
      simp only [step] at h
      split_ifs at h with hstage
      cases h
      exact .interrupted hstage
  | failed =>
      simp only [step] at h
      split_ifs at h with hstage
      cases h
      exact .fails hstage
  | ready listenReadable =>
      simp only [step] at h
      split_ifs at h with hstage hpipe hlisten
      · cases h
        exact .turns listenReadable hstage
      · cases h
        rw [hlisten]
        exact .isReady hstage

theorem step_outcome {s s' : SelectLoops n} {l : LoopsLabel n} (h : s.step l = some s') :
    StepOutcome s l s' := by
  cases l with
  | worker w act => exact .worker h (workerStep_outcome h)
  | select result => exact select_outcome h
  | push =>
      simp only [step] at h
      split at h
      · rename_i client hstage
        cases h
        exact .pushes hstage
      · cases h
  | acceptorReads =>
      simp only [step] at h
      split_ifs at h with hready
      cases h
      exact .acceptorLeaves hready.1 hready.2
  | enterShutdown =>
      simp only [step] at h
      split_ifs at h with hlistening
      cases h
      exact .entersShutdown hlistening
  | writeShutdown =>
      simp only [step] at h
      split_ifs at h with hstored
      cases h
      exact .writesShutdown hstored
  | endInput =>
      simp only [step] at h
      split_ifs at h with hlistening
      cases h
      exact .endsInput hlistening
  | load =>
      simp only [step] at h
      split at h
      · rename_i hstage
        cases h
        exact .loads hstage
      · cases h
  | accept fd clientIp =>
      simp only [step] at h
      split_ifs at h with hstage
      cases h
      exact .accepts fd clientIp hstage
  | acceptFails =>
      simp only [step] at h
      split_ifs at h with hstage
      cases h
      exact .acceptFails hstage
  | wake =>
      simp only [step] at h
      split_ifs at h with hstage
      cases h
      exact .wakes hstage

end SelectLoops

/-- `run_select_loops` with `n` workers, `n` being `max(1, n_select_loops)`. -/
def selectLoops (n : Nat) : Machine (SelectLoops n) (LoopsLabel n) where
  init s := s = {}
  step := SelectLoops.step

end CppHttpd
