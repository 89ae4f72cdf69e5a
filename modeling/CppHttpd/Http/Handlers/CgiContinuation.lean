import CppHttpd.Http.Handlers.CgiCourse
import CppHttpd.Http.Handlers.CgiWaits

/-!
# What `run_cgi` still does

In every state of the two processes, the parent has a rest of its program before it.
What it has come through so far is a run of that program on some answers of the
operating system, so that whatever the two processes come to is something that the
calls of `run_cgi` can come to.
-/

namespace CppHttpd

open CppHttpd.Foundation
open CppHttpd.Foundation.Asking (ComesTo)

namespace CgiCalls

section

variable {α : Type} {taken : List CgiAnswer} {q : CgiCalls α}

/-! ## The answer to a call -/

theorem comesTo_write (fd : Fd) (data : Bytes) {written : CallResult Nat}
    {f : CallResult Nat → CgiCalls α} (h : ComesTo (f written) taken q) :
    ComesTo (write fd data >>= f) (.write written :: taken) q := by
  rw [write, Asking.bind_assoc]
  refine .act (.ask ?_ h)
  rfl

theorem comesTo_select (nfds timeoutSec : Nat) {ready : CallResult Nat}
    {f : CallResult Nat → CgiCalls α} (h : ComesTo (f ready) taken q) :
    ComesTo (select nfds timeoutSec >>= f) (.select ready :: taken) q := by
  rw [select, Asking.bind_assoc]
  refine .act (.ask ?_ h)
  rfl

theorem comesTo_read (fd : Fd) {data : CallResult Bytes} {f : CallResult Bytes → CgiCalls α}
    (h : ComesTo (f data) taken q) : ComesTo (read fd >>= f) (.read data :: taken) q := by
  rw [read, Asking.bind_assoc]
  refine .act (.ask ?_ h)
  rfl

theorem comesTo_waitpid (pid : Pid) {status : Option WaitStatus}
    {f : Option WaitStatus → CgiCalls α} (h : ComesTo (f status) taken q) :
    ComesTo (waitpid pid >>= f) (.waitpid status :: taken) q := by
  have hacts : ComesTo ((do
      Asking.act (.waitpid pid status)
      pure status : CgiCalls _) >>= f) taken q := by
    rw [Asking.bind_assoc]
    exact .act h
  rw [waitpid, Asking.bind_assoc]
  refine .ask ?_ hacts
  rfl

end

/-! ## The rest of the program -/

section

variable (cgi : CgiSetting) (stdinPipe stdoutPipe : PipeEnds) (pid : Pid)

/-- What a turn of the loop makes of what `write` returns. -/
def writeResult (bytesWritten : Nat) : CallResult Nat → CgiCalls (Nat ⊕ Bool)
  | .interrupted => pure (.inl bytesWritten)
  | .failed => do
      close stdinPipe.writeEnd
      let _ ← waitpid pid
      pure (.inr false)
  | .ok n => pure (.inl (bytesWritten + n))

def readResult (cgiOutput : Bytes) : CallResult Bytes → CgiCalls (Bytes ⊕ Option Bytes)
  | .ok [] => pure (.inr (some cgiOutput))
  | .interrupted => pure (.inl cgiOutput)
  | .failed => giveUp pid
  | .ok data => pure (.inl (cgiOutput ++ data))

def selectResult (cgiOutput : Bytes) : CallResult Nat → CgiCalls (Bytes ⊕ Option Bytes)
  | .ok 0 => giveUp pid
  | .interrupted => pure (.inl cgiOutput)
  | .failed => giveUp pid
  | .ok (_ + 1) => do
      let data ← read stdoutPipe.readEnd
      readResult pid cgiOutput data

def writes (bytesWritten : Nat) : CgiCalls Bool :=
  Asking.loop (writeTurn stdinPipe.writeEnd cgi.request.buffer pid) bytesWritten

def reads (cgiOutput : Bytes) : CgiCalls (Option Bytes) :=
  Asking.loop (readTurn cgi.timeoutSec stdoutPipe.readEnd pid) cgiOutput

def afterReading (output : Option Bytes) : CgiCalls CgiOutcome := do
  close stdoutPipe.readEnd
  match output with
  | none => pure .readFailed
  | some cgiOutput => do
      let exited ← waitForChild pid
      pure (if exited = true then .exited cgiOutput else .exitFailed)

def afterWriting (cgiOutput : Bytes) (written : Bool) : CgiCalls CgiOutcome :=
  if written = true then do
    close stdinPipe.writeEnd
    let output ← reads cgi stdoutPipe pid cgiOutput
    afterReading stdoutPipe pid output
  else do
    close stdoutPipe.readEnd
    pure .writeFailed

/-- What the parent still does in such a stage; from its end it does not come back. -/
def continuation (cgiOutput : Bytes) : CgiStage → CgiCalls CgiOutcome
  | .writing bytesWritten _ => do
      let written ← writes cgi stdinPipe pid bytesWritten
      afterWriting cgi stdinPipe stdoutPipe pid cgiOutput written
  | .closingInput => afterWriting cgi stdinPipe stdoutPipe pid cgiOutput true
  | .selecting _ => do
      let output ← reads cgi stdoutPipe pid cgiOutput
      afterReading stdoutPipe pid output
  | .reading => do
      let data ← read stdoutPipe.readEnd
      let output ← readResult pid cgiOutput data >>= Sum.elim (reads cgi stdoutPipe pid) pure
      afterReading stdoutPipe pid output
  | .waiting .writeFailed => do
      let _ ← waitpid pid
      afterWriting cgi stdinPipe stdoutPipe pid cgiOutput false
  | .waiting .childKilled => do
      let _ ← waitpid pid
      afterReading stdoutPipe pid none
  | .waiting .endOfOutput => afterReading stdoutPipe pid (some cgiOutput)
  | .returned outcome => pure outcome
  | .terminated => Asking.wait

end

section

variable {cgi : CgiSetting} {stdinPipe stdoutPipe : PipeEnds} {pid : Pid} {cgiOutput : Bytes}

theorem parent_comesTo_start :
    ComesTo (parent cgi stdinPipe stdoutPipe pid) []
      (continuation cgi stdinPipe stdoutPipe pid [] (CgiRun.start cgi).stage) := by
  refine ComesTo.act (ComesTo.act ?_)
  unfold CgiRun.start writeBody
  by_cases hpost : cgi.request.methodStr = ascii "POST"
  · rw [if_pos hpost, if_pos hpost]
    exact .refl _
  · rw [if_neg hpost, if_neg hpost]
    exact .refl _

/-! ## A step of the parent -/

theorem writes_eq {bytesWritten : Nat} (hleft : bytesWritten < cgi.total) :
    writes cgi stdinPipe pid bytesWritten =
      (write stdinPipe.writeEnd (cgi.request.buffer.drop bytesWritten) >>=
        writeResult stdinPipe pid bytesWritten) >>=
        Sum.elim (writes cgi stdinPipe pid) pure := by
  have hlength : bytesWritten < cgi.request.buffer.length := hleft
  unfold writes
  rw [loop_writeTurn]
  congr 1
  rw [writeTurn, if_pos hlength]
  rfl

theorem writes_total : writes cgi stdinPipe pid cgi.total = pure true := by
  have hnone : ¬ cgi.total < cgi.request.buffer.length := Nat.lt_irrefl _
  unfold writes
  rw [loop_writeTurn, writeTurn, if_neg hnone]
  rfl

theorem reads_eq (cgiOutput : Bytes) :
    reads cgi stdoutPipe pid cgiOutput =
      (fdSet stdoutPipe.readEnd >>= fun _ =>
        select (stdoutPipe.readEnd + 1) cgi.timeoutSec >>=
          selectResult stdoutPipe pid cgiOutput) >>=
        Sum.elim (reads cgi stdoutPipe pid) pure := by
  unfold reads
  rw [loop_readTurn]
  rfl

section

variable {taken : List CgiAnswer} {q : CgiCalls CgiOutcome}

/-- `write` returns. -/
theorem comesTo_writing {bytesWritten inCall : Nat} (hleft : bytesWritten < cgi.total)
    {written : CallResult Nat}
    (h : ComesTo ((writeResult stdinPipe pid bytesWritten written >>=
        Sum.elim (writes cgi stdinPipe pid) pure) >>=
      afterWriting cgi stdinPipe stdoutPipe pid cgiOutput) taken q) :
    ComesTo (continuation cgi stdinPipe stdoutPipe pid cgiOutput (.writing bytesWritten inCall))
      (.write written :: taken) q := by
  rw [continuation, writes_eq hleft, Asking.bind_assoc, Asking.bind_assoc]
  refine comesTo_write _ _ ?_
  rw [Asking.bind_assoc] at h
  exact h

/-- `select` returns. -/
theorem comesTo_selecting {left : Nat} {ready : CallResult Nat}
    (h : ComesTo ((selectResult stdoutPipe pid cgiOutput ready >>=
        Sum.elim (reads cgi stdoutPipe pid) pure) >>=
      afterReading stdoutPipe pid) taken q) :
    ComesTo (continuation cgi stdinPipe stdoutPipe pid cgiOutput (.selecting left))
      (.select ready :: taken) q := by
  rw [continuation, reads_eq, Asking.bind_assoc, Asking.bind_assoc]
  refine .act ?_
  rw [Asking.bind_assoc]
  refine comesTo_select _ _ ?_
  rw [Asking.bind_assoc] at h
  exact h

/-- `read` returns. -/
theorem comesTo_reading {data : CallResult Bytes}
    (h : ComesTo ((readResult pid cgiOutput data >>=
        Sum.elim (reads cgi stdoutPipe pid) pure) >>=
      afterReading stdoutPipe pid) taken q) :
    ComesTo (continuation cgi stdinPipe stdoutPipe pid cgiOutput .reading)
      (.read data :: taken) q :=
  comesTo_read _ h

theorem giveUp_comesTo :
    ComesTo ((giveUp pid >>= Sum.elim (reads cgi stdoutPipe pid) pure) >>=
        afterReading stdoutPipe pid) []
      (continuation cgi stdinPipe stdoutPipe pid cgiOutput (.waiting .childKilled)) := by
  rw [giveUp, Asking.bind_assoc, Asking.bind_assoc]
  refine .act ?_
  rw [Asking.bind_assoc]
  exact .refl _

end

theorem comesTo_writeFailed {bytesWritten inCall : Nat} (hleft : bytesWritten < cgi.total) :
    ComesTo (continuation cgi stdinPipe stdoutPipe pid cgiOutput (.writing bytesWritten inCall))
      [.write .failed]
      (continuation cgi stdinPipe stdoutPipe pid cgiOutput (.waiting .writeFailed)) := by
  refine comesTo_writing hleft ?_
  rw [writeResult, Asking.bind_assoc, Asking.bind_assoc]
  refine .act ?_
  rw [Asking.bind_assoc]
  exact .refl _

theorem comesTo_returned {reason : WaitReason} (s : CgiRun) (status : Option WaitStatus) :
    ComesTo (continuation cgi stdinPipe stdoutPipe pid s.cgiOutput (.waiting reason))
      [.waitpid status] (pure (s.outcome status reason)) := by
  cases reason with
  | writeFailed => exact comesTo_waitpid _ (.act (.refl _))
  | childKilled => exact comesTo_waitpid _ (.act (.refl _))
  | endOfOutput =>
      refine .act ?_
      dsimp only
      rw [waitForChild, Asking.bind_assoc]
      exact comesTo_waitpid _ (.refl _)

/-- What the parent does in a step, its program does on an answer, or on none. -/
theorem continuation_move {s s' : CgiRun} (hsound : s.Sound cgi)
    (hmove : CgiRun.ParentMove cgi s s') :
    s'.stage = .terminated ∨ ∃ taken,
      ComesTo (continuation cgi stdinPipe stdoutPipe pid s.cgiOutput s.stage) taken
        (continuation cgi stdinPipe stdoutPipe pid s'.cgiOutput s'.stage) := by
  have hleft_of {bytesWritten inCall : Nat} (hstage : s.stage = .writing bytesWritten inCall)
      (hne : bytesWritten ≠ cgi.total) : bytesWritten < cgi.total := by
    have hstageSound := hsound.stage
    simp only [CgiRun.StageSound, hstage] at hstageSound
    omega
  cases hmove with
  | @puts bytesWritten inCall n hstage hopen hput =>
      right
      rw [hstage]
      have hleft : bytesWritten < cgi.total := by
        have hpos := hput.1
        have hrest := hput.2.1
        omega
      unfold CgiRun.put
      split_ifs with hall
      · refine ⟨[.write (.ok (inCall + n))], comesTo_writing hleft ?_⟩
        rw [← hall, Nat.add_assoc]
        exact .refl _
      · exact ⟨[], .refl _⟩
  | @writeReturns bytesWritten inCall hstage hne =>
      right
      rw [hstage]
      exact ⟨[.write (.ok inCall)], comesTo_writing (hleft_of hstage hne) (.refl _)⟩
  | closesInput hstage =>
      right
      refine ⟨[], ?_⟩
      rw [hstage, continuation, writes_total]
      exact .refl _
  | isTerminated => exact .inl rfl
  | writeFails hstage hne =>
      right
      rw [hstage]
      exact ⟨[.write .failed], comesTo_writeFailed (hleft_of hstage hne)⟩
  | selects hstage =>
      right
      rcases hstage with hstage | ⟨left, hstage⟩ | hstage
      · rw [hstage]
        exact ⟨[], .act (.refl _)⟩
      · rw [hstage]
        exact ⟨[.select .interrupted], comesTo_selecting (.refl _)⟩
      · rw [hstage]
        exact ⟨[.read .interrupted], comesTo_reading (.refl _)⟩
  | ticks hstage =>
      right
      rw [hstage]
      exact ⟨[], .refl _⟩
  | isReady hstage =>
      right
      rw [hstage]
      refine ⟨[.select (.ok 1)], comesTo_selecting ?_⟩
      rw [selectResult, Asking.bind_assoc, Asking.bind_assoc, continuation]
      simp only [Asking.bind_assoc]
      exact .refl _
  | @reads n hstage hbytes =>
      right
      rw [hstage]
      refine ⟨[.read (.ok (s.stdoutPipe.bytes.take n))], comesTo_reading ?_⟩
      obtain ⟨first, rest, htake⟩ : ∃ first rest, s.stdoutPipe.bytes.take n = first :: rest := by
        apply List.exists_cons_of_ne_nil
        rw [← List.length_pos_iff, List.length_take]
        omega
      change ComesTo _ _ (continuation cgi stdinPipe stdoutPipe pid
        (s.cgiOutput ++ s.stdoutPipe.bytes.take n) (.selecting cgi.timeoutSec))
      rw [htake]
      exact .refl _
  | kills hstage =>
      right
      have hkilled : s.kill.stage = .waiting .childKilled := rfl
      rw [hkilled]
      rcases hstage with ⟨left, hstage⟩ | hstage
      · rw [hstage]
        exact ⟨[.select (.ok 0)], comesTo_selecting giveUp_comesTo⟩
      · rw [hstage]
        exact ⟨[.read .failed], comesTo_reading giveUp_comesTo⟩
  | reachesEnd hstage =>
      right
      rw [hstage]
      exact ⟨[.read (.ok [])], comesTo_reading (.refl _)⟩
  | returns hstage status =>
      right
      rw [hstage]
      exact ⟨[.waitpid status], comesTo_returned s status⟩

end

/-! ## A whole run -/

section

variable {cgi : CgiSetting} {s : CgiRun}

theorem parent_comesTo (stdinPipe stdoutPipe : PipeEnds) (pid : Pid)
    (h : (cgiProcesses cgi).Reached s) :
    s.stage = .terminated ∨ ∃ taken,
      ComesTo (parent cgi stdinPipe stdoutPipe pid) taken
        (continuation cgi stdinPipe stdoutPipe pid s.cgiOutput s.stage) := by
  induction h with
  | init hinit =>
      cases hinit
      exact .inr ⟨[], parent_comesTo_start⟩
  | @step s s' label hs _ hstep ih =>
      rcases ih with hterminated | ⟨taken, hcome⟩
      · exact .inl (CgiRun.terminated_stays hterminated hstep)
      · cases label with
        | child act =>
            obtain ⟨hstage, houtput⟩ := CgiRun.childStep_same hstep
            rw [hstage, houtput]
            exact .inr ⟨taken, hcome⟩
        | parent act =>
            have hmove := CgiRun.move_of_parentStep hstep
            rcases continuation_move (CgiRun.sound_of_reached hs) hmove with
              hterminated | ⟨taken', hnext⟩
            · exact .inl hterminated
            · exact .inr ⟨taken ++ taken', hcome.trans hnext⟩

/-- Whatever the processes return with, the calls of `run_cgi` can return with. -/
theorem runCgi_of_reached (h : (cgiProcesses cgi).Reached s) {outcome : CgiOutcome}
    (hstage : s.stage = .returned outcome) :
    ∃ answers log, runCgi cgi answers = (log, some (outcome, [])) := by
  let stdinPipe : PipeEnds := ⟨3, 4⟩
  let stdoutPipe : PipeEnds := ⟨5, 6⟩
  rcases parent_comesTo stdinPipe stdoutPipe 2 h with hterminated | ⟨taken, hcome⟩
  · rw [hstage] at hterminated
    cases hterminated
  · rw [hstage] at hcome
    obtain ⟨log, hparent⟩ := ComesTo.returned hcome
    have hdistinct : [stdinPipe.readEnd, stdinPipe.writeEnd, stdoutPipe.readEnd,
        stdoutPipe.writeEnd].Nodup := by decide
    have hrun : runCgi cgi (.pipe (some stdinPipe) :: .pipe (some stdoutPipe) ::
        .fork (some 2) :: taken) = _ := runCgi_forked cgi hdistinct
    rw [hparent] at hrun
    exact ⟨_, _, hrun⟩

end

end CgiCalls

end CppHttpd
