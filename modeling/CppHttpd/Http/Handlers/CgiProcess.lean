import CppHttpd.Foundation.Transition
import CppHttpd.Http.Handlers.CgiHandler

/-!
# The two processes of `run_cgi`

Parent and child run by turns, with a bounded pipe each way between them.  The
child may do anything with its ends.  The parent follows `run_cgi` from `fork` on,
and has no step while the call that it is in does not return.
-/

namespace CppHttpd

open CppHttpd.Foundation

structure CgiSetting where
  request : HttpRequest := {}
  timeoutSeconds : Int := 0
  capacity : Nat := 65536
  /-- `PIPE_BUF`; so many bytes are put into a pipe together. -/
  pipeBuf : Nat := 4096
  pipeBuf_pos : 0 < pipeBuf := by decide
  pipeBuf_le : pipeBuf ≤ capacity := by decide
  /-- The server does not set what `SIGPIPE` does, it comes from whoever starts it. -/
  sigpipeIgnored : Bool := false

def CgiSetting.total (cgi : CgiSetting) : Nat := cgi.request.buffer.length

def CgiSetting.timeoutSec (cgi : CgiSetting) : Nat :=
  if cgi.timeoutSeconds > 0 then cgi.timeoutSeconds.toNat else 30

structure Pipe where
  bytes : Bytes := []
  /-- The child, or a copy of it, still has its end. -/
  childOpen : Bool := true

inductive WaitStatus where
  | exited (code : UInt8)
  | signalled
  deriving DecidableEq, Repr

inductive WaitReason where
  | writeFailed
  | childKilled
  | endOfOutput
  deriving DecidableEq, Repr

inductive CgiStage where
  /-- `inCall` of the bytes after `bytes_written` are in the pipe, `write` did not return. -/
  | writing (bytesWritten inCall : Nat)
  | closingInput
  /-- In `select`, with so many seconds left. -/
  | selecting (left : Nat)
  | reading
  | waiting (reason : WaitReason)
  | returned (outcome : CgiOutcome)
  /-- `SIGPIPE` ended the server. -/
  | terminated

structure CgiRun where
  stage : CgiStage
  stdinPipe : Pipe := {}
  stdoutPipe : Pipe := {}
  cgiOutput : Bytes := []
  /-- How the child ended, when it has. -/
  status : Option WaitStatus := none

inductive ChildAct where
  | readInput (n : Nat)
  | writeOutput (data : Bytes)
  | closeInput
  | closeOutput
  | exit (status : WaitStatus)

inductive ParentAct where
  /-- `write` puts so many bytes into the pipe. -/
  | put (n : Nat)
  | take (n : Nat)
  /-- Whatever else the parent does next. -/
  | go
  | second
  /-- A signal handler ran. -/
  | interrupt
  /-- `select` or `read` fails. -/
  | fail

inductive CgiLabel where
  | child (act : ChildAct)
  | parent (act : ParentAct)

namespace CgiRun

variable (cgi : CgiSetting)

def start : CgiRun :=
  { stage := if cgi.request.methodStr = ascii "POST" then .writing 0 0 else .closingInput }

/-- Everything a process has open is closed when it ends. -/
def childEnds (s : CgiRun) (status : WaitStatus) : CgiRun :=
  { s with
    stdinPipe := { s.stdinPipe with childOpen := false }
    stdoutPipe := { s.stdoutPipe with childOpen := false }
    status := some status }

def childStep (s : CgiRun) (act : ChildAct) : Option CgiRun :=
  if s.status ≠ none then none
  else
    match act with
    | .readInput n =>
        if s.stdinPipe.childOpen = true ∧ n ≤ s.stdinPipe.bytes.length then
          some { s with stdinPipe.bytes := s.stdinPipe.bytes.drop n }
        else none
    | .writeOutput data =>
        if s.stdoutPipe.childOpen = true ∧
            s.stdoutPipe.bytes.length + data.length ≤ cgi.capacity then
          some { s with stdoutPipe.bytes := s.stdoutPipe.bytes ++ data }
        else none
    | .closeInput => some { s with stdinPipe.childOpen := false }
    | .closeOutput => some { s with stdoutPipe.childOpen := false }
    | .exit status => some (s.childEnds status)

/-- What `write` may put into the pipe at once, of the bytes that it has left. -/
def MayPut (s : CgiRun) (bytesWritten inCall n : Nat) : Prop :=
  0 < n ∧ n ≤ cgi.total - (bytesWritten + inCall) ∧
    s.stdinPipe.bytes.length + n ≤ cgi.capacity ∧
    (cgi.total - bytesWritten ≤ cgi.pipeBuf → n = cgi.total - (bytesWritten + inCall))

instance (s : CgiRun) (bytesWritten inCall n : Nat) :
    Decidable (s.MayPut cgi bytesWritten inCall n) := by
  unfold MayPut
  infer_instance

def put (s : CgiRun) (bytesWritten inCall n : Nat) : CgiRun :=
  let data := (cgi.request.buffer.drop (bytesWritten + inCall)).take n
  { s with
    stage :=
      if bytesWritten + inCall + n = cgi.total then .writing cgi.total 0
      else .writing bytesWritten (inCall + n)
    stdinPipe.bytes := s.stdinPipe.bytes ++ data }

/-- The call of `write` comes back with what it has put into the pipe. -/
def writeReturns (s : CgiRun) (bytesWritten inCall : Nat) : CgiRun :=
  { s with stage := .writing (bytesWritten + inCall) 0 }

/-- No one reads the pipe any more. -/
def brokenPipe (s : CgiRun) (bytesWritten inCall : Nat) : CgiRun :=
  if cgi.sigpipeIgnored = false then { s with stage := .terminated }
  else if inCall > 0 then s.writeReturns bytesWritten inCall
  else { s with stage := .waiting .writeFailed }

def select (s : CgiRun) : CgiRun := { s with stage := .selecting cgi.timeoutSec }

/-- `kill(pid, SIGKILL)`, and then `waitpid`. -/
def kill (s : CgiRun) : CgiRun :=
  let killed := if s.status = none then s.childEnds .signalled else s
  { killed with stage := .waiting .childKilled }

/-- `wait_for_child` on what `waitpid` stored; nothing if it returned `-1`. -/
def waitForChild : Option WaitStatus → Bool
  | some (.exited code) => code = 0
  | some .signalled => false
  | none => false

def outcome (s : CgiRun) (status : Option WaitStatus) : WaitReason → CgiOutcome
  | .writeFailed => .writeFailed
  | .childKilled => .readFailed
  | .endOfOutput => if waitForChild status = true then .exited s.cgiOutput else .exitFailed

def returns (s : CgiRun) (status : Option WaitStatus) (reason : WaitReason) : CgiRun :=
  { s with stage := .returned (s.outcome status reason) }

/-- `select` and `read` do not wait. -/
def Ready (s : CgiRun) : Prop :=
  s.stdoutPipe.bytes ≠ [] ∨ s.stdoutPipe.childOpen = false

instance (s : CgiRun) : Decidable s.Ready := inferInstanceAs (Decidable (_ ∨ _))

def goStep (s : CgiRun) : Option CgiRun :=
  match s.stage with
  | .writing bytesWritten inCall =>
      if bytesWritten = cgi.total then some { s with stage := .closingInput }
      else if s.stdinPipe.childOpen = true then none
      else some (s.brokenPipe cgi bytesWritten inCall)
  | .closingInput => some (s.select cgi)
  | .selecting left =>
      if s.Ready then some { s with stage := .reading }
      else if left = 0 then some s.kill
      else none
  | .reading =>
      if s.stdoutPipe.bytes = [] ∧ s.stdoutPipe.childOpen = false then
        some { s with stage := .waiting .endOfOutput }
      else none
  | .waiting reason =>
      if s.status = none then none else some (s.returns s.status reason)
  | .returned _ => none
  | .terminated => none

def interruptStep (s : CgiRun) : Option CgiRun :=
  match s.stage with
  | .writing bytesWritten inCall =>
      if bytesWritten = cgi.total then none else some (s.writeReturns bytesWritten inCall)
  | .selecting _ => some (s.select cgi)
  | .reading => some (s.select cgi)
  | .waiting reason => some (s.returns none reason)
  | _ => none

def parentStep (s : CgiRun) (act : ParentAct) : Option CgiRun :=
  match act, s.stage with
  | .put n, .writing bytesWritten inCall =>
      if s.stdinPipe.childOpen = true ∧ s.MayPut cgi bytesWritten inCall n then
        some (s.put cgi bytesWritten inCall n)
      else none
  | .take n, .reading =>
      if 0 < n ∧ n ≤ 4096 ∧ n ≤ s.stdoutPipe.bytes.length then
        some ({ s with
          stdoutPipe.bytes := s.stdoutPipe.bytes.drop n
          cgiOutput := s.cgiOutput ++ s.stdoutPipe.bytes.take n }.select cgi)
      else none
  | .second, .selecting (left + 1) => some { s with stage := .selecting left }
  | .fail, .selecting _ => some s.kill
  | .fail, .reading => some s.kill
  | .go, _ => s.goStep cgi
  | .interrupt, _ => s.interruptStep cgi
  | _, _ => none

def step (s : CgiRun) : CgiLabel → Option CgiRun
  | .child act => s.childStep cgi act
  | .parent act => s.parentStep cgi act

/-! ## Waiting without a limit -/

/-- `write`, `read` and `waitpid`. -/
def InUntimedCall (s : CgiRun) : Prop :=
  match s.stage with
  | .writing bytesWritten _ => bytesWritten ≠ cgi.total
  | .reading => True
  | .waiting _ => True
  | _ => False

/-- The call that the parent is in has no timeout, and by itself it does not return. -/
def Blocked (s : CgiRun) : Prop :=
  s.InUntimedCall cgi ∧ ∀ act s', s.parentStep cgi act = some s' → act = .interrupt ∨ act = .fail

end CgiRun

/-- `run_cgi` after `fork`, with its child. -/
def cgiProcesses (cgi : CgiSetting) : Machine CgiRun CgiLabel where
  init s := s = CgiRun.start cgi
  step s label := s.step cgi label

/-- The states that the parent comes to while the child takes no step. -/
abbrev CgiRun.Alone (cgi : CgiSetting) (s : CgiRun) : CgiRun → Prop :=
  ((cgiProcesses cgi).startingAt s).ReachedBy fun _ label => ∃ act, label = .parent act

end CppHttpd
