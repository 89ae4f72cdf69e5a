import CppHttpd.Foundation.Transition
import CppHttpd.Server.SelectMode

/-!
# A worker of the event loop

`run_event_loop_worker` waits for events, takes new connections over, handles
one event after the other and closes what is to be closed.  The peers and the
kernel act at any time in between: bytes arrive, streams end, room to send is
made.  A label is what one of them does next.
-/

namespace CppHttpd

open CppHttpd.Foundation

variable {W : Type*}

/-- How far the worker is in an iteration of its loop. -/
inductive Stage where
  | polling
  | accepting (events : List PollEvent)
  | serving (events : List PollEvent) (toRemove : List Fd)

structure LoopState (W : Type*) where
  sockets : Fd → Socket
  poller : EpollPoller
  conns : Fd → Option ConnState
  stage : Stage
  world : W

inductive LoopLabel where
  | arrive (fd : Fd) (data : Bytes)
  | hangUp (fd : Fd)
  | makeRoom (fd : Fd)
  | wait (batch : List Fd)
  /-- A connection comes out of the queue, `socket` being what has become of it so far. -/
  | accept (fd : Fd) (clientIp : Bytes) (socket : Socket) (now : Int)
  | serve
  /-- The next event, with what its system calls answer and the room they leave. -/
  | handle (write : SendResult) (sendfiles : List SendResult) (sendable : Bool)
  | sweep (now : Int)

def READ_BUF_SIZE : Nat := 8192

namespace LoopState

def finish (s : LoopState W) (fd : Fd) (turn : ConnTurn W) (events : List PollEvent)
    (toRemove : List Fd) : LoopState W :=
  { s with
    poller := match turn.modify with
      | none => s.poller
      | some interest => s.poller.modify turn.state.fd interest (s.sockets turn.state.fd)
    conns := Function.update s.conns fd (some turn.state)
    world := turn.world
    stage := .serving events (if turn.close then toRemove ++ [fd] else toRemove) }

def handleEvent (h : Handler W) (s : LoopState W) (event : PollEvent)
    (events : List PollEvent) (toRemove : List Fd)
    (write : SendResult) (sendfiles : List SendResult) (sendable : Bool) : LoopState W :=
  match s.conns event.fd with
  | none => { s with stage := .serving events toRemove }
  | some state =>
      if state.phase = .reading ∧ event.readable then
        let (result, socket) := (s.sockets event.fd).read READ_BUF_SIZE
        { s with sockets := Function.update s.sockets event.fd socket }.finish event.fd
          (processReadable h s.world state result) events toRemove
      else if state.phase = .writing ∧ event.writable then
        let socket := { s.sockets event.fd with sendable := sendable }
        { s with sockets := Function.update s.sockets event.fd socket }.finish event.fd
          (processWritable s.world state write sendfiles) events toRemove
      else { s with stage := .serving events toRemove }

def timedOut (timeoutSeconds now : Int) (state : ConnState) : Bool :=
  timeoutSeconds > 0 ∧ state.phase = .reading ∧ now - state.acceptedAt ≥ timeoutSeconds

/-- Close the connections that are to be removed, and the idle ones. -/
def sweepConns (s : LoopState W) (timeoutSeconds now : Int) (toRemove : List Fd) :
    LoopState W :=
  let removed fd := fd ∈ toRemove ∨ (s.conns fd).any (timedOut timeoutSeconds now)
  { s with
    poller := fun fd => if removed fd ∧ (s.conns fd).isSome then none else s.poller fd
    conns := fun fd => if removed fd then none else s.conns fd
    stage := .polling }

def step (h : Handler W) (timeoutSeconds : Int) (s : LoopState W) :
    LoopLabel → Option (LoopState W)
  | .arrive fd data =>
      let socket := { s.sockets fd with unread := (s.sockets fd).unread ++ data }
      if data = [] then none
      else some { s with
        sockets := Function.update s.sockets fd socket
        poller := s.poller.notify fd { wantRead := true, wantWrite := false } }
  | .hangUp fd =>
      let socket := { s.sockets fd with ended := true }
      some { s with
        sockets := Function.update s.sockets fd socket
        poller := s.poller.notify fd { wantRead := true, wantWrite := false } }
  | .makeRoom fd =>
      let socket := { s.sockets fd with sendable := true }
      some { s with
        sockets := Function.update s.sockets fd socket
        poller := s.poller.notify fd { wantRead := false, wantWrite := true } }
  | .wait batch =>
      match s.stage with
      | .polling =>
          match s.poller.wait s.sockets batch with
          | none => none
          | some (events, poller) =>
              some { s with poller := poller, stage := .accepting events }
      | _ => none
  | .accept fd clientIp socket now =>
      match s.stage with
      | .accepting _ =>
          -- a descriptor that is still open is not handed out again
          if s.conns fd = none ∧ s.poller fd = none then
            some { s with
              sockets := Function.update s.sockets fd socket
              poller := s.poller.add fd { wantRead := true, wantWrite := false } socket
              conns := Function.update s.conns fd
                (some { fd := fd, clientIp := clientIp, acceptedAt := now }) }
          else none
      | _ => none
  | .serve =>
      match s.stage with
      | .accepting events => some { s with stage := .serving events [] }
      | _ => none
  | .handle write sendfiles sendable =>
      match s.stage with
      | .serving (event :: events) toRemove =>
          some (s.handleEvent h event events toRemove write sendfiles sendable)
      | _ => none
  | .sweep now =>
      match s.stage with
      | .serving [] toRemove => some (s.sweepConns timeoutSeconds now toRemove)
      | _ => none

end LoopState

/-- A worker on its own: it has no connection yet, and nothing is watched. -/
def eventLoop (h : Handler W) (timeoutSeconds : Int) : Machine (LoopState W) LoopLabel where
  init s := s.stage = .polling ∧ (∀ fd, s.poller fd = none) ∧ ∀ fd, s.conns fd = none
  step := LoopState.step h timeoutSeconds

end CppHttpd
