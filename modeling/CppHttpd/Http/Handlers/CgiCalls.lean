import CppHttpd.Foundation.Asking
import CppHttpd.Http.Handlers.CgiProcess

/-!
# The calls of `run_cgi`

`run_cgi` and its helpers as the parent runs them, with every call to the operating
system that they make.  A call is answered in any way that it can be; the log has
the calls in order.
-/

namespace CppHttpd

open CppHttpd.Foundation

abbrev Pid := Nat

structure PipeEnds where
  readEnd : Fd
  writeEnd : Fd
  deriving DecidableEq, Repr

/-- What a call returns; `EINTR` is told from the other errors. -/
inductive CallResult (α : Type) where
  | ok (value : α)
  | interrupted
  | failed
  deriving DecidableEq, Repr

inductive CgiAnswer where
  | pipe (ends : Option PipeEnds)
  | fork (child : Option Pid)
  | write (written : CallResult Nat)
  | select (ready : CallResult Nat)
  | read (data : CallResult Bytes)
  | waitpid (status : Option WaitStatus)
  deriving DecidableEq, Repr

inductive CgiEvent where
  | pipe (ends : Option PipeEnds)
  | fork (child : Option Pid)
  | close (fd : Fd)
  | write (fd : Fd) (data : Bytes)
  | fdSet (fd : Fd)
  | select (nfds timeoutSec : Nat)
  | read (fd : Fd)
  | kill (pid : Pid)
  | waitpid (pid : Pid) (status : Option WaitStatus)
  deriving DecidableEq, Repr

/-- `FD_SET` and `select`. -/
def CgiEvent.Selects : CgiEvent → Prop
  | .fdSet _ => True
  | .select _ _ => True
  | _ => False

abbrev CgiCalls (α : Type) := Asking CgiAnswer CgiEvent α

namespace CgiCalls

/-! ## The operating system -/

/-- `pipe` returns two descriptors, and neither is one of those that are open. -/
def pipeAnswer (openFds : List Fd) : CgiAnswer → Option (Option PipeEnds)
  | .pipe none => some none
  | .pipe (some ends) =>
      if (openFds ++ [ends.readEnd, ends.writeEnd]).Nodup then some (some ends) else none
  | _ => none

def pipe (openFds : List Fd) : CgiCalls (Option PipeEnds) := do
  let ends ← Asking.ask (pipeAnswer openFds)
  Asking.act (.pipe ends)
  pure ends

def fork : CgiCalls (Option Pid) := do
  let child ← Asking.ask fun
    | .fork child => some child
    | _ => none
  Asking.act (.fork child)
  pure child

def close (fd : Fd) : CgiCalls Unit := Asking.act (.close fd)

def write (fd : Fd) (data : Bytes) : CgiCalls (CallResult Nat) := do
  Asking.act (.write fd data)
  Asking.ask fun
    | .write written => some written
    | _ => none

def fdSet (fd : Fd) : CgiCalls Unit := Asking.act (.fdSet fd)

def select (nfds timeoutSec : Nat) : CgiCalls (CallResult Nat) := do
  Asking.act (.select nfds timeoutSec)
  Asking.ask fun
    | .select ready => some ready
    | _ => none

def read (fd : Fd) : CgiCalls (CallResult Bytes) := do
  Asking.act (.read fd)
  Asking.ask fun
    | .read data => some data
    | _ => none

def kill (pid : Pid) : CgiCalls Unit := Asking.act (.kill pid)

def waitpid (pid : Pid) : CgiCalls (Option WaitStatus) := do
  let status ← Asking.ask fun
    | .waitpid status => some status
    | _ => none
  Asking.act (.waitpid pid status)
  pure status

/-! ## The program -/

def setupCgiPipes : CgiCalls (Option (PipeEnds × PipeEnds)) := do
  match ← pipe [] with
  | none => pure none
  | some stdinPipe =>
      match ← pipe [stdinPipe.readEnd, stdinPipe.writeEnd] with
      | none => do
          close stdinPipe.readEnd
          close stdinPipe.writeEnd
          pure none
      | some stdoutPipe => pure (some (stdinPipe, stdoutPipe))

/-- One turn of the loop of `write_post_body_to_child`. -/
def writeTurn (stdinFd : Fd) (body : Bytes) (pid : Pid) (bytesWritten : Nat) :
    CgiCalls (Nat ⊕ Bool) :=
  if bytesWritten < body.length then do
    match ← write stdinFd (body.drop bytesWritten) with
    | .interrupted => pure (.inl bytesWritten)
    | .failed => do
        close stdinFd
        let _ ← waitpid pid
        pure (.inr false)
    | .ok n => pure (.inl (bytesWritten + n))
  else pure (.inr true)

def writePostBodyToChild (stdinFd : Fd) (body : Bytes) (pid : Pid) : CgiCalls Bool :=
  Asking.loop (writeTurn stdinFd body pid) 0

/-- The child is killed, and nothing is returned. -/
def giveUp (pid : Pid) : CgiCalls (Bytes ⊕ Option Bytes) := do
  kill pid
  let _ ← waitpid pid
  pure (.inr none)

/-- One turn of the loop of `read_child_output`. -/
def readTurn (timeoutSec : Nat) (stdoutFd : Fd) (pid : Pid) (cgiOutput : Bytes) :
    CgiCalls (Bytes ⊕ Option Bytes) := do
  fdSet stdoutFd
  match ← select (stdoutFd + 1) timeoutSec with
  | .ok 0 => giveUp pid
  | .interrupted => pure (.inl cgiOutput)
  | .failed => giveUp pid
  | .ok (_ + 1) => do
      match ← read stdoutFd with
      | .ok [] => pure (.inr (some cgiOutput))
      | .interrupted => pure (.inl cgiOutput)
      | .failed => giveUp pid
      | .ok data => pure (.inl (cgiOutput ++ data))

def readChildOutput (timeoutSec : Nat) (stdoutFd : Fd) (pid : Pid) : CgiCalls (Option Bytes) :=
  Asking.loop (readTurn timeoutSec stdoutFd pid) []

def waitForChild (pid : Pid) : CgiCalls Bool := do
  let status ← waitpid pid
  pure (CgiRun.waitForChild status)

def writeBody (cgi : CgiSetting) (stdinFd : Fd) (pid : Pid) : CgiCalls Bool :=
  if cgi.request.methodStr = ascii "POST" then
    writePostBodyToChild stdinFd cgi.request.buffer pid
  else pure true

/-- The parent, once it has its child. -/
def parent (cgi : CgiSetting) (stdinPipe stdoutPipe : PipeEnds) (pid : Pid) :
    CgiCalls CgiOutcome := do
  close stdinPipe.readEnd
  close stdoutPipe.writeEnd
  let written ← writeBody cgi stdinPipe.writeEnd pid
  if written = true then do
    close stdinPipe.writeEnd
    let output ← readChildOutput cgi.timeoutSec stdoutPipe.readEnd pid
    close stdoutPipe.readEnd
    match output with
    | none => pure .readFailed
    | some cgiOutput => do
        let exited ← waitForChild pid
        pure (if exited = true then .exited cgiOutput else .exitFailed)
  else do
    close stdoutPipe.readEnd
    pure .writeFailed

def runCgi (cgi : CgiSetting) : CgiCalls CgiOutcome := do
  match ← setupCgiPipes with
  | none => pure .pipeFailed
  | some (stdinPipe, stdoutPipe) =>
      match ← fork with
      | none => do
          close stdinPipe.readEnd
          close stdinPipe.writeEnd
          close stdoutPipe.readEnd
          close stdoutPipe.writeEnd
          pure .forkFailed
      | some pid => parent cgi stdinPipe stdoutPipe pid

/-! ## The loops -/

theorem takes_waitpid (pid : Pid) : (waitpid pid).Takes 1 :=
  .bind (.ask _) fun _ => .act_bind (.pure _)

theorem takes_giveUp (pid : Pid) : (giveUp pid).Takes 1 :=
  .act_bind (.bind (takes_waitpid pid) fun _ => .pure _)

theorem takes_writeTurn {stdinFd : Fd} {body : Bytes} {pid : Pid} {bytesWritten : Nat}
    (hleft : bytesWritten < body.length) : (writeTurn stdinFd body pid bytesWritten).Takes 1 := by
  unfold writeTurn
  rw [if_pos hleft]
  refine Asking.Takes.bind (.act_bind (.ask _)) ?_
  intro written
  cases written with
  | ok n => exact .pure _
  | interrupted => exact .pure _
  | failed => exact .act_bind (.zero (.bind (takes_waitpid pid) fun _ => .pure _))

theorem takes_readTurn (timeoutSec : Nat) (stdoutFd : Fd) (pid : Pid) (cgiOutput : Bytes) :
    (readTurn timeoutSec stdoutFd pid cgiOutput).Takes 1 := by
  refine Asking.Takes.act_bind (.bind (.act_bind (.ask _)) ?_)
  intro ready
  split
  · exact (takes_giveUp pid).zero
  · exact .pure _
  · exact (takes_giveUp pid).zero
  · refine Asking.Takes.zero (.bind (.act_bind (.ask _)) ?_)
    intro data
    split
    · exact .pure _
    · exact .pure _
    · exact (takes_giveUp pid).zero
    · exact .pure _

/-- The loop of `write_post_body_to_child` has as many turns as it needs. -/
theorem loop_writeTurn (stdinFd : Fd) (body : Bytes) (pid : Pid) (bytesWritten : Nat) :
    Asking.loop (writeTurn stdinFd body pid) bytesWritten =
      writeTurn stdinFd body pid bytesWritten >>=
        Sum.elim (Asking.loop (writeTurn stdinFd body pid)) pure := by
  apply Asking.loop_eq
  intro bytesWritten answers bytesWritten' rest hresult
  by_cases hleft : bytesWritten < body.length
  · exact takes_writeTurn hleft answers _ rest hresult
  · rw [writeTurn, if_neg hleft] at hresult
    cases hresult

/-- The loop of `read_child_output` has as many turns as it needs. -/
theorem loop_readTurn (timeoutSec : Nat) (stdoutFd : Fd) (pid : Pid) (cgiOutput : Bytes) :
    Asking.loop (readTurn timeoutSec stdoutFd pid) cgiOutput =
      readTurn timeoutSec stdoutFd pid cgiOutput >>=
        Sum.elim (Asking.loop (readTurn timeoutSec stdoutFd pid)) pure := by
  apply Asking.loop_eq
  intro cgiOutput answers cgiOutput' rest hresult
  exact takes_readTurn timeoutSec stdoutFd pid cgiOutput answers _ rest hresult

end CgiCalls

end CppHttpd
