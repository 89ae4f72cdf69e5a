import CppHttpd.Foundation.Entries
import CppHttpd.Foundation.Transition
import CppHttpd.Http.Handlers.RequestHandler
import CppHttpd.Server.EventLoop

/-!
# The descriptors of an event-loop worker

`run_event_loop_worker` with its map of connections and what its poller watches.
Every event may be reported at any time, and the system calls may answer anything
that they can answer.  The files that responses came with, and those that were
closed, are put on record.
-/

namespace CppHttpd

open CppHttpd.Foundation

/-! ## The files that a connection closes -/

def sendBodyCloses (state : ConnState) : List SendResult → List Fd
  | [] => if state.sendfileSize > 0 then [] else state.sendfileFd.toList
  | result :: results =>
      if state.sendfileSize > 0 then
        match result with
        | .again => []
        | .failed => state.sendfileFd.toList
        | .sent n _ => sendBodyCloses (state.bodySent n) results
      else state.sendfileFd.toList

def resetConnToReadingCloses (state : ConnState) : List Fd := state.sendfileFd.toList

/-- What comes behind the writing, if the connection is kept. -/
def afterWritingCloses (state : ConnState) : List Fd :=
  if state.closeAfterWrite then [] else resetConnToReadingCloses state

def processWritableCloses (state : ConnState) (write : SendResult)
    (sendfiles : List SendResult) : List Fd :=
  match writePending state write with
  | .error _ => []
  | .ok state =>
      if state.sendfileFd.isSome then
        match sendBody state sendfiles with
        | .error _ => sendBodyCloses state sendfiles
        | .ok state' => sendBodyCloses state sendfiles ++ afterWritingCloses state'
      else afterWritingCloses state

def Action.bodies : Action → List Fd
  | .answered _ package => package.bodyFd.toList
  | .refused _ => []

/-! ## What the kernel promises -/

/-- No more is sent than was asked for. -/
def SendResult.Within (asked : Nat) : SendResult → Prop
  | .sent n _ => n ≤ asked
  | .again => True
  | .failed => True

instance (asked : Nat) : (result : SendResult) → Decidable (result.Within asked)
  | .sent n _ => inferInstanceAs (Decidable (n ≤ asked))
  | .again => inferInstanceAs (Decidable True)
  | .failed => inferInstanceAs (Decidable True)

def SendfilesWithin (size : Int) : List SendResult → Prop
  | .sent n _ :: results => n ≤ size ∧ SendfilesWithin (size - n) results
  | _ => True

instance decidableSendfilesWithin :
    (size : Int) → (results : List SendResult) → Decidable (SendfilesWithin size results)
  | _, [] => inferInstanceAs (Decidable True)
  | size, .sent n _ :: results =>
      have := decidableSendfilesWithin (size - n) results
      inferInstanceAs (Decidable (_ ∧ _))
  | _, .again :: _ => inferInstanceAs (Decidable True)
  | _, .failed :: _ => inferInstanceAs (Decidable True)

def ReadResult.Within (asked : Nat) (result : ReadResult) : Prop := result.size ≤ asked

instance (asked : Nat) (result : ReadResult) : Decidable (result.Within asked) :=
  inferInstanceAs (Decidable (_ ≤ _))

/-- What the calls answer that are made for one event. -/
structure EventAnswers where
  read : ReadResult
  write : SendResult
  sendfiles : List SendResult
  env : Environment
  /-- What the other threads have open. -/
  others : List Fd
  accepting : Bool

/-! ## The worker -/

structure EventWorkerSetting where
  wakePipe : Fd
  shutdownPipe : Fd
  pipes_ne : wakePipe ≠ shutdownPipe
  timeoutSeconds : Int
  config : Config
  iteration : HttpResponse.Iteration

inductive EventWorkerStage where
  | polling
  | accepting (events : List PollEvent)
  | serving (events : List PollEvent) (now : Int) (toRemove : List Fd)
  | exited

structure EventWorker where
  poller : Fd → Option Interest
  conns : AList fun _ : Fd => ConnState := ∅
  stage : EventWorkerStage := .polling
  /-- The files that responses came with. -/
  returned : List Fd := []
  /-- The files among them that `close` was called for. -/
  closed : List Fd := []

inductive EventWorkerLabel where
  | wait (events : List PollEvent)
  /-- A connection comes out of the queue. -/
  | accept (fd : Fd) (clientIp : Bytes) (now : Int)
  | serve (now : Int)
  | handle (answers : EventAnswers)
  | sweep

/-- `RequestHandler::handle`; after an exception there is no state to go on with. -/
def requestHandler (setting : EventWorkerSetting) (answers : EventAnswers) :
    Handler (Option OsState) where
  handle world request accepting clientRemoteAddr :=
    match world with
    | none => ({}, none)
    | some os =>
        match handle answers.env setting.config request accepting clientRemoteAddr os with
        | (.error _, _) => ({}, none)
        | (.ok response, os) => (response, some os)
  accepting _ := answers.accepting
  iteration := setting.iteration

namespace EventWorker

variable (setting : EventWorkerSetting)

def start : EventWorker :=
  { poller := Function.update
      (Function.update (fun _ => none) setting.wakePipe (some Phase.reading.interest))
      setting.shutdownPipe (some Phase.reading.interest) }

/-- The files that connections have to send. -/
def bodies (s : EventWorker) : List Fd :=
  holdings (fun state : ConnState => state.sendfileFd.toList) s.conns

def openFds (s : EventWorker) : List Fd :=
  setting.wakePipe :: setting.shutdownPipe :: (s.conns.keys ++ s.bodies)

/-- The loop behind the last iteration. -/
def exit (s : EventWorker) : EventWorker :=
  { s with
    poller := fun _ => none
    conns := ∅
    stage := .exited
    closed := s.closed ++ s.bodies }

def addConn (s : EventWorker) (fd : Fd) (clientIp : Bytes) (now : Int) : EventWorker :=
  { s with
    poller := Function.update s.poller fd (some Phase.reading.interest)
    conns := s.conns.insert fd { fd := fd, clientIp := clientIp, acceptedAt := now } }

def modifyPoller (s : EventWorker) (fd : Fd) (interest : Option Interest) :
    Fd → Option Interest :=
  match interest with
  | none => s.poller
  | some interest =>
      if (s.poller fd).isSome then Function.update s.poller fd (some interest) else s.poller

def finish {W : Type*} (s : EventWorker) (fd : Fd) (turn : ConnTurn W) (closes : List Fd)
    (events : List PollEvent) (now : Int) (toRemove : List Fd) : EventWorker :=
  { poller := s.modifyPoller turn.state.fd turn.modify
    conns := s.conns.insert fd turn.state
    stage := .serving events now (if turn.close then toRemove ++ [fd] else toRemove)
    returned := s.returned ++ turn.actions.flatMap Action.bodies
    closed := s.closed ++ closes }

def handleEvent (s : EventWorker) (answers : EventAnswers) (event : PollEvent)
    (events : List PollEvent) (now : Int) (toRemove : List Fd) : Option EventWorker :=
  let next := { s with stage := .serving events now toRemove }
  if event.fd = setting.wakePipe ∨ event.fd = setting.shutdownPipe then some next
  else
    match s.conns.lookup event.fd with
    | none => some next
    | some state =>
        if state.phase = .reading ∧ event.readable then
          let os : OsState := { openFds := s.openFds setting ++ answers.others }
          let turn := processReadable (requestHandler setting answers) (some os) state answers.read
          if answers.read.Within READ_BUF_SIZE ∧ turn.world.isSome then
            some (s.finish event.fd turn [] events now toRemove)
          else none
        else if state.phase = .writing ∧ event.writable then
          let turn := processWritable () state answers.write answers.sendfiles
          if answers.write.Within (state.writeBuf.length - state.writeOffset) ∧
              SendfilesWithin state.sendfileSize answers.sendfiles then
            some (s.finish event.fd turn
              (processWritableCloses state answers.write answers.sendfiles) events now toRemove)
          else none
        else some next

def removeConn (s : EventWorker) (fd : Fd) : EventWorker :=
  match s.conns.lookup fd with
  | none => s
  | some state =>
      { s with
        poller := Function.update s.poller fd none
        conns := s.conns.erase fd
        closed := s.closed ++ state.sendfileFd.toList }

/-- The idle connections. -/
def timedOut (s : EventWorker) (now : Int) : List Fd :=
  (s.conns.entries.filter fun entry =>
    LoopState.timedOut setting.timeoutSeconds now entry.2).map Sigma.fst

def sweep (s : EventWorker) (now : Int) (toRemove : List Fd) : EventWorker :=
  { (toRemove ++ s.timedOut setting now).foldl removeConn s with stage := .polling }

def step (s : EventWorker) (label : EventWorkerLabel) : Option EventWorker :=
  match label, s.stage with
  | .wait events, .polling =>
      if events.any fun event => event.fd = setting.shutdownPipe ∧ event.readable then
        some s.exit
      else some { s with stage := .accepting events }
  | .accept fd clientIp now, .accepting events =>
      -- a descriptor that is still open is not handed out again
      if (events.any fun event => event.fd = setting.wakePipe ∧ event.readable) ∧
          fd ∉ s.openFds setting then
        some (s.addConn fd clientIp now)
      else none
  | .serve now, .accepting events => some { s with stage := .serving events now [] }
  | .handle answers, .serving (event :: events) now toRemove =>
      s.handleEvent setting answers event events now toRemove
  | .sweep, .serving [] now toRemove => some (s.sweep setting now toRemove)
  | _, _ => none

end EventWorker

def eventWorker (setting : EventWorkerSetting) : Machine EventWorker EventWorkerLabel where
  init s := s = EventWorker.start setting
  step := EventWorker.step setting

end CppHttpd
