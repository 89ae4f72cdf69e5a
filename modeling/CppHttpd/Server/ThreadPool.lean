import CppHttpd.Foundation.Threads
import CppHttpd.Foundation.Transition
import CppHttpd.Server.ManagementThread

/-!
# The threads of `run_thread_pool`

The workers take connections out of a queue and wait for a condition variable
when it is empty.  After the acceptor has left, the main thread queues one
sentinel for each worker.  Looking at the queue and taking an entry, or going to
sleep, is one critical section.
-/

namespace CppHttpd

open CppHttpd.Foundation

inductive QueueEntry where
  | client (client : Client)
  /-- `{-1, ""}`. -/
  | sentinel
  deriving DecidableEq, Repr

inductive PoolAcceptor where
  | selecting
  | readingShutdown
  | accepting
  | pushing (client : Client)
  | left
  deriving DecidableEq, Repr

/-- How far `run_thread_pool` itself is. -/
inductive PoolMain where
  | joiningAcceptor
  /-- The sentinels are queued, `notify_all` is not yet called. -/
  | notifying
  | joiningWorkers
  deriving DecidableEq, Repr

inductive PoolStage where
  | checking
  | sleeping
  | taken (entry : QueueEntry)
  | handling (client : Client)
  | closing (client : Client)
  | exited
  deriving DecidableEq, Repr

structure PoolWorker where
  stage : PoolStage := .checking
  /-- The connections that `handle_connection` was called for. -/
  passed : List Client := []
  /-- The connections that `close` was called for. -/
  closed : List Client := []
  /-- How many sentinels the worker took. -/
  sentinels : Nat := 0

structure ThreadPool (n : Nat) where
  management : Management := .listening
  shutdownPipe : Nat := 0
  queue : List QueueEntry := []
  acceptor : PoolAcceptor := .selecting
  main : PoolMain := .joiningAcceptor
  workers : Fin n → PoolWorker := fun _ => {}
  /-- How many connections were accepted. -/
  accepted : Nat := 0

inductive PoolAct where
  | check
  | look
  | returns
  | close

inductive PoolLabel (n : Nat) where
  | enterShutdown
  | writeShutdown
  | endInput
  | select (result : SelectResult)
  | acceptorReads
  | accept (fd : Fd) (clientIp : Bytes)
  | acceptFails
  /-- `notify_one` wakes the worker that is given. -/
  | push (woken : Option (Fin n))
  | pushSentinels
  | notifyAll
  | spuriousWakeup (w : Fin n)
  | worker (w : Fin n) (act : PoolAct)

namespace ThreadPool

variable {n : Nat}

def setWorker (s : ThreadPool n) (w : Fin n) (worker : PoolWorker) : ThreadPool n :=
  { s with workers := Function.update s.workers w worker }

def wake (worker : PoolWorker) : PoolWorker :=
  if worker.stage = .sleeping then { worker with stage := .checking } else worker

/-- `notify_one` wakes one of the workers that sleep, if there are any. -/
def notifyOne (s : ThreadPool n) : Option (Fin n) → Option (ThreadPool n)
  | none => if ∀ w, (s.workers w).stage ≠ .sleeping then some s else none
  | some w =>
      if (s.workers w).stage = .sleeping then some (s.setWorker w (wake (s.workers w))) else none

def workerStep (s : ThreadPool n) (w : Fin n) : PoolAct → Option (ThreadPool n)
  | .check =>
      let worker := s.workers w
      if worker.stage = .checking then
        match s.queue with
        | [] => some (s.setWorker w { worker with stage := .sleeping })
        | entry :: rest =>
            some { s.setWorker w { worker with
                stage := .taken entry
                sentinels := worker.sentinels + if entry = .sentinel then 1 else 0 } with
              queue := rest }
      else none
  | .look =>
      let worker := s.workers w
      match worker.stage with
      | .taken .sentinel => some (s.setWorker w { worker with stage := .exited })
      | .taken (.client client) =>
          some (s.setWorker w { worker with
            stage := .handling client
            passed := worker.passed ++ [client] })
      | _ => none
  | .returns =>
      let worker := s.workers w
      match worker.stage with
      | .handling client => some (s.setWorker w { worker with stage := .closing client })
      | _ => none
  | .close =>
      let worker := s.workers w
      match worker.stage with
      | .closing client =>
          some (s.setWorker w { worker with
            stage := .checking
            closed := worker.closed ++ [client] })
      | _ => none

def step (s : ThreadPool n) : PoolLabel n → Option (ThreadPool n)
  | .enterShutdown =>
      if s.management = .listening then some { s with management := .stored } else none
  | .writeShutdown =>
      if s.management = .stored then
        some { s with management := .done, shutdownPipe := s.shutdownPipe + 1 }
      else none
  | .endInput =>
      if s.management = .listening then some { s with management := .inputEnded } else none
  | .select result =>
      if s.acceptor = .selecting then
        match result with
        | .interrupted => some s
        | .failed => some { s with acceptor := .left }
        | .ready listenReadable =>
            if s.shutdownPipe > 0 then some { s with acceptor := .readingShutdown }
            else if listenReadable then some { s with acceptor := .accepting }
            else none
      else none
  | .acceptorReads =>
      if s.acceptor = .readingShutdown ∧ s.shutdownPipe > 0 then
        some { s with acceptor := .left, shutdownPipe := s.shutdownPipe - 1 }
      else none
  | .accept fd clientIp =>
      if s.acceptor = .accepting then
        some { s with
          acceptor := .pushing { number := s.accepted, fd, clientIp }
          accepted := s.accepted + 1 }
      else none
  | .acceptFails =>
      if s.acceptor = .accepting then some { s with acceptor := .selecting } else none
  | .push woken =>
      match s.acceptor with
      | .pushing client =>
          { s with
            queue := s.queue ++ [QueueEntry.client client]
            acceptor := .selecting }.notifyOne woken
      | _ => none
  | .pushSentinels =>
      if s.main = .joiningAcceptor ∧ s.acceptor = .left then
        some { s with queue := s.queue ++ List.replicate n .sentinel, main := .notifying }
      else none
  | .notifyAll =>
      if s.main = .notifying then
        some { s with main := .joiningWorkers, workers := fun w => wake (s.workers w) }
      else none
  | .spuriousWakeup w =>
      if (s.workers w).stage = .sleeping then some (s.setWorker w (wake (s.workers w))) else none
  | .worker w act => s.workerStep w act

/-- What a step of a worker does, with what led to it. -/
inductive WorkerOutcome (s : ThreadPool n) (w : Fin n) : ThreadPool n → Prop
  | sleeps (hstage : (s.workers w).stage = .checking) (hempty : s.queue = []) :
      WorkerOutcome s w (s.setWorker w { s.workers w with stage := .sleeping })
  | takes {entry : QueueEntry} {rest : List QueueEntry}
      (hstage : (s.workers w).stage = .checking) (hqueue : s.queue = entry :: rest) :
      WorkerOutcome s w { s.setWorker w { s.workers w with
          stage := .taken entry
          sentinels := (s.workers w).sentinels + if entry = .sentinel then 1 else 0 } with
        queue := rest }
  | exits (hstage : (s.workers w).stage = .taken .sentinel) :
      WorkerOutcome s w (s.setWorker w { s.workers w with stage := .exited })
  | passes {client : Client} (hstage : (s.workers w).stage = .taken (.client client)) :
      WorkerOutcome s w (s.setWorker w { s.workers w with
        stage := .handling client
        passed := (s.workers w).passed ++ [client] })
  | returns {client : Client} (hstage : (s.workers w).stage = .handling client) :
      WorkerOutcome s w (s.setWorker w { s.workers w with stage := .closing client })
  | closes {client : Client} (hstage : (s.workers w).stage = .closing client) :
      WorkerOutcome s w (s.setWorker w { s.workers w with
        stage := .checking
        closed := (s.workers w).closed ++ [client] })

theorem workerStep_outcome {s s' : ThreadPool n} {w : Fin n} {act : PoolAct}
    (h : s.workerStep w act = some s') : WorkerOutcome s w s' := by
  cases act with
  | check =>
      simp only [workerStep] at h
      split at h
      · split at h
        · cases h
          exact .sleeps ‹_› ‹_›
        · cases h
          exact .takes ‹_› ‹_›
      · cases h
  | look =>
      simp only [workerStep] at h
      split at h
      · cases h
        exact .exits ‹_›
      · cases h
        exact .passes ‹_›
      · cases h
  | returns =>
      simp only [workerStep] at h
      split at h
      · cases h
        exact .returns ‹_›
      · cases h
  | close =>
      simp only [workerStep] at h
      split at h
      · cases h
        exact .closes ‹_›
      · cases h

/-- What a step of the pool does, with what led to it. -/
inductive StepOutcome (s : ThreadPool n) : ThreadPool n → Prop
  | entersShutdown (hlistening : s.management = .listening) :
      StepOutcome s { s with management := .stored }
  | writesShutdown (hstored : s.management = .stored) :
      StepOutcome s { s with management := .done, shutdownPipe := s.shutdownPipe + 1 }
  | endsInput (hlistening : s.management = .listening) :
      StepOutcome s { s with management := .inputEnded }
  | interrupted (hstage : s.acceptor = .selecting) : StepOutcome s s
  | fails (hstage : s.acceptor = .selecting) : StepOutcome s { s with acceptor := .left }
  | turns (hstage : s.acceptor = .selecting) :
      StepOutcome s { s with acceptor := .readingShutdown }
  | isReady (hstage : s.acceptor = .selecting) : StepOutcome s { s with acceptor := .accepting }
  | acceptorLeaves (hstage : s.acceptor = .readingShutdown) (hpipe : 0 < s.shutdownPipe) :
      StepOutcome s { s with acceptor := .left, shutdownPipe := s.shutdownPipe - 1 }
  | accepts (fd : Fd) (clientIp : Bytes) (hstage : s.acceptor = .accepting) :
      StepOutcome s { s with
        acceptor := .pushing { number := s.accepted, fd, clientIp }
        accepted := s.accepted + 1 }
  | acceptFails (hstage : s.acceptor = .accepting) :
      StepOutcome s { s with acceptor := .selecting }
  | pushes {client : Client} {woken : Option (Fin n)} {s' : ThreadPool n}
      (hstage : s.acceptor = .pushing client)
      (hnotify : { s with
        queue := s.queue ++ [QueueEntry.client client]
        acceptor := .selecting }.notifyOne woken = some s') : StepOutcome s s'
  | pushesSentinels (hmain : s.main = .joiningAcceptor) (hacceptor : s.acceptor = .left) :
      StepOutcome s { s with
        queue := s.queue ++ List.replicate n .sentinel
        main := .notifying }
  | notifiesAll (hmain : s.main = .notifying) :
      StepOutcome s { s with main := .joiningWorkers, workers := fun w => wake (s.workers w) }
  | wakesUp {w : Fin n} (hsleeping : (s.workers w).stage = .sleeping) :
      StepOutcome s (s.setWorker w (wake (s.workers w)))
  | worker {w : Fin n} {s' : ThreadPool n} (houtcome : WorkerOutcome s w s') : StepOutcome s s'

theorem select_outcome {s s' : ThreadPool n} {result : SelectResult}
    (h : s.step (.select result) = some s') : StepOutcome s s' := by
  cases result with
  | interrupted =>
      simp only [step] at h
      split_ifs at h with hstage
      cases h
      exact .interrupted hstage
  | failed =>
      simp only [step] at h
      split_ifs at h with hstage
      cases h
      exact .fails hstage
  | ready listenReadable =>
      simp only [step] at h
      split_ifs at h with hstage hpipe hlisten
      · cases h
        exact .turns hstage
      · cases h
        exact .isReady hstage

theorem step_outcome {s s' : ThreadPool n} {l : PoolLabel n} (h : s.step l = some s') :
    StepOutcome s s' := by
  cases l with
  | worker w act => exact .worker (workerStep_outcome h)
  | select result => exact select_outcome h
  | push woken =>
      simp only [step] at h
      split at h
      · rename_i client hstage
        exact .pushes hstage h
      · cases h
  | enterShutdown =>
      simp only [step] at h
      split_ifs at h with hlistening
      cases h
      exact .entersShutdown hlistening
  | writeShutdown =>
      simp only [step] at h
      split_ifs at h with hstored
      cases h
      exact .writesShutdown hstored
  | endInput =>
      simp only [step] at h
      split_ifs at h with hlistening
      cases h
      exact .endsInput hlistening
  | acceptorReads =>
      simp only [step] at h
      split_ifs at h with hready
      cases h
      exact .acceptorLeaves hready.1 hready.2
  | accept fd clientIp =>
      simp only [step] at h
      split_ifs at h with hstage
      cases h
      exact .accepts fd clientIp hstage
  | acceptFails =>
      simp only [step] at h
      split_ifs at h with hstage
      cases h
      exact .acceptFails hstage
  | pushSentinels =>
      simp only [step] at h
      split_ifs at h with hleft
      cases h
      exact .pushesSentinels hleft.1 hleft.2
  | notifyAll =>
      simp only [step] at h
      split_ifs at h with hmain
      cases h
      exact .notifiesAll hmain
  | spuriousWakeup w =>
      simp only [step] at h
      split_ifs at h with hsleeping
      cases h
      exact .wakesUp hsleeping

end ThreadPool

end CppHttpd
