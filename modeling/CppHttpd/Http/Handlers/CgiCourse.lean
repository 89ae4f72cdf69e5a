import CppHttpd.Foundation.Ledger
import CppHttpd.Http.Handlers.CgiCalls
import Mathlib.Tactic.Abel

/-!
# The course of `run_cgi`

A run of `run_cgi` either has no child, or has made both pipes and forked; what is
acquired is acquired before.  From then on `select` is for the one descriptor.
-/

namespace CppHttpd

open CppHttpd.Foundation

namespace CgiCalls

/-! ## What the parent holds -/

inductive Handle where
  | fd (fd : Fd)
  | child (pid : Pid)
  deriving DecidableEq

/-- A child is held until it is reaped, and a signal or a wait needs it to be. -/
def ledger : Ledger CgiEvent Handle where
  acquires
    | .pipe (some ends) => {.fd ends.readEnd} + {.fd ends.writeEnd}
    | .fork (some pid) => {.child pid}
    | _ => 0
  releases
    | .close fd => {.fd fd}
    | .waitpid pid (some _) => {.child pid}
    | _ => 0
  uses
    | .write fd _ => {.fd fd}
    | .fdSet fd => {.fd fd}
    | .read fd => {.fd fd}
    | .kill pid => {.child pid}
    | .waitpid pid _ => {.child pid}
    | _ => 0

/-! ## The course of a run -/

section Pipes

variable {openFds : List Fd} {ends stdinPipe stdoutPipe : PipeEnds} {rest : List CgiAnswer}

theorem pipe_fresh (hfresh : (openFds ++ [ends.readEnd, ends.writeEnd]).Nodup) :
    pipe openFds (.pipe (some ends) :: rest) =
      ([.pipe (some ends)], some (some ends, rest)) := by
  have hask : (Asking.ask (pipeAnswer openFds) : CgiCalls _) (.pipe (some ends) :: rest) =
      ([], some (some ends, rest)) := by
    rw [Asking.ask_cons, pipeAnswer, if_pos hfresh]
    rfl
  exact Asking.bind_of_eq hask

theorem setupCgiPipes_fresh (hdistinct : [stdinPipe.readEnd, stdinPipe.writeEnd,
      stdoutPipe.readEnd, stdoutPipe.writeEnd].Nodup) :
    setupCgiPipes (.pipe (some stdinPipe) :: .pipe (some stdoutPipe) :: rest) =
      ([.pipe (some stdinPipe), .pipe (some stdoutPipe)],
        some (some (stdinPipe, stdoutPipe), rest)) := by
  have hstdin : ([] ++ [stdinPipe.readEnd, stdinPipe.writeEnd]).Nodup :=
    hdistinct.sublist (List.sublist_append_left _ [stdoutPipe.readEnd, stdoutPipe.writeEnd])
  have hstdout : ([stdinPipe.readEnd, stdinPipe.writeEnd] ++
      [stdoutPipe.readEnd, stdoutPipe.writeEnd]).Nodup := hdistinct
  rw [setupCgiPipes, Asking.bind_of_eq (pipe_fresh hstdin)]
  dsimp only
  rw [Asking.bind_of_eq (pipe_fresh hstdout)]
  rfl

theorem runCgi_forked (cgi : CgiSetting) {pid : Pid} (hdistinct : [stdinPipe.readEnd,
      stdinPipe.writeEnd, stdoutPipe.readEnd, stdoutPipe.writeEnd].Nodup) :
    runCgi cgi (.pipe (some stdinPipe) :: .pipe (some stdoutPipe) :: .fork (some pid) :: rest) =
      (.pipe (some stdinPipe) :: .pipe (some stdoutPipe) :: .fork (some pid) ::
        (parent cgi stdinPipe stdoutPipe pid rest).1,
        (parent cgi stdinPipe stdoutPipe pid rest).2) := by
  rw [runCgi, Asking.bind_of_eq (setupCgiPipes_fresh hdistinct)]
  rfl

end Pipes

theorem pipe_cases (openFds : List Fd) (answers : List CgiAnswer) :
    pipe openFds answers = ([], none) ∨
      (∃ rest, pipe openFds answers = ([.pipe none], some (none, rest))) ∨
      ∃ ends rest, answers = .pipe (some ends) :: rest ∧
        (openFds ++ [ends.readEnd, ends.writeEnd]).Nodup ∧
        pipe openFds answers = ([.pipe (some ends)], some (some ends, rest)) := by
  match answers with
  | [] => exact .inl rfl
  | .pipe none :: rest => exact .inr (.inl ⟨rest, rfl⟩)
  | .pipe (some ends) :: rest =>
      by_cases hfresh : (openFds ++ [ends.readEnd, ends.writeEnd]).Nodup
      · exact .inr (.inr ⟨ends, rest, rfl, hfresh, pipe_fresh hfresh⟩)
      · have hask : (Asking.ask (pipeAnswer openFds) : CgiCalls _) (.pipe (some ends) :: rest) =
            ([], none) := by
          rw [Asking.ask_cons, pipeAnswer, if_neg hfresh]
          rfl
        exact .inl (Asking.bind_of_waiting hask)
  | .fork _ :: _ => exact .inl rfl
  | .write _ :: _ => exact .inl rfl
  | .select _ :: _ => exact .inl rfl
  | .read _ :: _ => exact .inl rfl
  | .waitpid _ :: _ => exact .inl rfl

theorem fork_cases (answers : List CgiAnswer) :
    fork answers = ([], none) ∨ (∃ rest, fork answers = ([.fork none], some (none, rest))) ∨
      ∃ pid rest, answers = .fork (some pid) :: rest := by
  match answers with
  | [] => exact .inl rfl
  | .fork none :: rest => exact .inr (.inl ⟨rest, rfl⟩)
  | .fork (some pid) :: rest => exact .inr (.inr ⟨pid, rest, rfl⟩)
  | .pipe _ :: _ => exact .inl rfl
  | .write _ :: _ => exact .inl rfl
  | .select _ :: _ => exact .inl rfl
  | .read _ :: _ => exact .inl rfl
  | .waitpid _ :: _ => exact .inl rfl

/-- After `fork` nothing is acquired, and `select` is for the child's output only. -/
def AfterFork (stdoutFd : Fd) : CgiEvent → Prop
  | .pipe _ => False
  | .fork _ => False
  | .fdSet fd => fd = stdoutFd
  | .select nfds _ => nfds = stdoutFd + 1
  | _ => True

theorem logs_waitpid (stdoutFd : Fd) (pid : Pid) :
    (waitpid pid).Logs (AfterFork stdoutFd) := by
  refine Asking.Logs.bind (.ask _) ?_
  intro status
  exact .bind (.act trivial) fun _ => .pure _

theorem logs_writeBody (cgi : CgiSetting) (stdoutFd stdinFd : Fd) (pid : Pid) :
    (writeBody cgi stdinFd pid).Logs (AfterFork stdoutFd) := by
  unfold writeBody
  split_ifs
  · apply Asking.Logs.loop
    intro bytesWritten
    unfold writeTurn
    split_ifs
    · refine Asking.Logs.bind (.bind (.act trivial) fun _ => .ask _) ?_
      intro written
      cases written with
      | ok n => exact .pure _
      | interrupted => exact .pure _
      | failed =>
          refine Asking.Logs.bind (.act trivial) ?_
          intro _
          exact .bind (logs_waitpid stdoutFd pid) fun _ => .pure _
    · exact .pure _
  · exact .pure _

theorem logs_readChildOutput (timeoutSec : Nat) (stdoutFd : Fd) (pid : Pid) :
    (readChildOutput timeoutSec stdoutFd pid).Logs (AfterFork stdoutFd) := by
  have hgiveUp : (giveUp pid).Logs (AfterFork stdoutFd) := by
    refine Asking.Logs.bind (.act trivial) ?_
    intro _
    exact .bind (logs_waitpid stdoutFd pid) fun _ => .pure _
  apply Asking.Logs.loop
  intro cgiOutput
  refine Asking.Logs.bind (.act rfl) ?_
  intro _
  refine Asking.Logs.bind (.bind (.act rfl) fun _ => .ask _) ?_
  intro ready
  split
  · exact hgiveUp
  · exact .pure _
  · exact hgiveUp
  · refine Asking.Logs.bind (.bind (.act trivial) fun _ => .ask _) ?_
    intro data
    split
    · exact .pure _
    · exact .pure _
    · exact hgiveUp
    · exact .pure _

theorem logs_parent (cgi : CgiSetting) (stdinPipe stdoutPipe : PipeEnds) (pid : Pid) :
    (parent cgi stdinPipe stdoutPipe pid).Logs (AfterFork stdoutPipe.readEnd) := by
  refine Asking.Logs.bind (.act trivial) ?_
  intro _
  refine Asking.Logs.bind (.act trivial) ?_
  intro _
  apply (logs_writeBody cgi _ _ pid).bind
  intro written
  split_ifs
  · refine Asking.Logs.bind (.act trivial) ?_
    intro _
    apply (logs_readChildOutput _ _ pid).bind
    intro output
    refine Asking.Logs.bind (.act trivial) ?_
    intro _
    cases output with
    | none => exact .pure _
    | some cgiOutput =>
        refine Asking.Logs.bind (.bind (logs_waitpid _ pid) fun _ => .pure _) ?_
        intro exited
        exact .pure _
  · exact .bind (.act trivial) fun _ => .pure _

/-- There is no child, `select` is not called, and no descriptor was acquired twice. -/
structure Childless (log : List CgiEvent) : Prop where
  unforked : ∀ pid, .fork (some pid) ∉ log
  unselected : ∀ e ∈ log, ¬ e.Selects
  distinct : (ledger.acquired log).Nodup

theorem Childless.nil : Childless [] := ⟨by simp, by simp, by simp⟩

/-- Either the two pipes are made, and are four descriptors, or `run_cgi` has no pipes. -/
theorem setupCgiPipes_cases (answers : List CgiAnswer) :
    (∃ log, Childless log ∧ (setupCgiPipes answers = (log, none) ∨
      ∃ rest, setupCgiPipes answers = (log, some (none, rest)))) ∨
      ∃ stdinPipe stdoutPipe rest,
        answers = .pipe (some stdinPipe) :: .pipe (some stdoutPipe) :: rest ∧
        [stdinPipe.readEnd, stdinPipe.writeEnd, stdoutPipe.readEnd, stdoutPipe.writeEnd].Nodup ∧
        setupCgiPipes answers = ([.pipe (some stdinPipe), .pipe (some stdoutPipe)],
          some (some (stdinPipe, stdoutPipe), rest)) := by
  rcases pipe_cases [] answers with hfirst | ⟨rest, hfirst⟩ |
    ⟨stdinPipe, rest, rfl, hdistinct, hfirst⟩
  · exact .inl ⟨[], .nil, .inl (Asking.bind_of_waiting hfirst)⟩
  · exact .inl ⟨[.pipe none], ⟨by simp, by simp [CgiEvent.Selects], by simp [ledger]⟩,
      .inr ⟨rest, Asking.bind_of_eq hfirst⟩⟩
  · have hstdin : (ledger.acquired [.pipe (some stdinPipe)]).Nodup := by
      simpa [ledger] using hdistinct
    rcases pipe_cases [stdinPipe.readEnd, stdinPipe.writeEnd] rest with hsecond |
      ⟨rest', hsecond⟩ | ⟨stdoutPipe, rest', rfl, hdistinct', hsecond⟩
    · left
      refine ⟨[.pipe (some stdinPipe)], ⟨by simp, by simp [CgiEvent.Selects], hstdin⟩, .inl ?_⟩
      rw [setupCgiPipes, Asking.bind_of_eq hfirst]
      dsimp only
      rw [Asking.bind_of_waiting hsecond]
      rfl
    · left
      refine ⟨[.pipe (some stdinPipe), .pipe none, .close stdinPipe.readEnd,
        .close stdinPipe.writeEnd], ⟨by simp, by simp [CgiEvent.Selects], ?_⟩, .inr ⟨rest', ?_⟩⟩
      · simpa [ledger] using hstdin
      rw [setupCgiPipes, Asking.bind_of_eq hfirst]
      dsimp only
      rw [Asking.bind_of_eq hsecond]
      rfl
    · exact .inr ⟨stdinPipe, stdoutPipe, rest', rfl, hdistinct', setupCgiPipes_fresh hdistinct'⟩

theorem acquired_pipes_nodup {stdinPipe stdoutPipe : PipeEnds}
    (hdistinct : [stdinPipe.readEnd, stdinPipe.writeEnd, stdoutPipe.readEnd,
      stdoutPipe.writeEnd].Nodup) :
    (ledger.acquired [.pipe (some stdinPipe), .pipe (some stdoutPipe)]).Nodup := by
  have hfds := hdistinct.map (f := Handle.fd) fun _ _ h => Handle.fd.inj h
  exact Multiset.coe_nodup.2 hfds

/-- A run that has come past `fork` has made both pipes, and goes on as the parent. -/
theorem runCgi_cases (cgi : CgiSetting) (answers : List CgiAnswer) :
    (Childless (runCgi cgi answers).1 ∧ ∀ outcome rest,
        (runCgi cgi answers).2 = some (outcome, rest) → outcome.started = false) ∨
      ∃ stdinPipe stdoutPipe pid rest,
        answers = .pipe (some stdinPipe) :: .pipe (some stdoutPipe) :: .fork (some pid) :: rest ∧
        [stdinPipe.readEnd, stdinPipe.writeEnd, stdoutPipe.readEnd, stdoutPipe.writeEnd].Nodup ∧
        runCgi cgi answers = (.pipe (some stdinPipe) :: .pipe (some stdoutPipe) ::
          .fork (some pid) :: (parent cgi stdinPipe stdoutPipe pid rest).1,
          (parent cgi stdinPipe stdoutPipe pid rest).2) := by
  rcases setupCgiPipes_cases answers with ⟨log, hlog, hsetup | ⟨rest, hsetup⟩⟩ |
    ⟨stdinPipe, stdoutPipe, rest, rfl, hdistinct, hsetup⟩
  · left
    rw [runCgi, Asking.bind_of_waiting hsetup]
    exact ⟨hlog, by rintro outcome rest ⟨⟩⟩
  · left
    rw [runCgi, Asking.bind_of_eq hsetup]
    refine ⟨(List.append_nil log).symm ▸ hlog, ?_⟩
    rintro outcome rest ⟨⟩
    rfl
  · have hpipes := acquired_pipes_nodup hdistinct
    rcases fork_cases rest with hfork | ⟨rest', hfork⟩ | ⟨pid, rest', rfl⟩
    · left
      rw [runCgi, Asking.bind_of_eq hsetup]
      dsimp only
      rw [Asking.bind_of_waiting hfork]
      exact ⟨⟨by simp, by simp [CgiEvent.Selects], hpipes⟩, by rintro outcome rest ⟨⟩⟩
    · left
      rw [runCgi, Asking.bind_of_eq hsetup]
      dsimp only
      rw [Asking.bind_of_eq hfork]
      refine ⟨⟨by simp [close, Asking.bind_log],
        by simp [CgiEvent.Selects, close, Asking.bind_log], hpipes⟩, ?_⟩
      rintro outcome rest ⟨⟩
      rfl
    · exact .inr ⟨stdinPipe, stdoutPipe, pid, rest', rfl, hdistinct, runCgi_forked cgi hdistinct⟩

theorem parent_started (cgi : CgiSetting) (stdinPipe stdoutPipe : PipeEnds) (pid : Pid) :
    (parent cgi stdinPipe stdoutPipe pid).Returns fun outcome => outcome.started = true := by
  refine .bind fun _ => .bind fun _ => .bind fun written => ?_
  split_ifs
  · refine .bind fun _ => .bind fun output => .bind fun _ => ?_
    cases output with
    | none => exact .pure rfl
    | some cgiOutput =>
        apply Asking.Returns.bind
        intro exited
        cases exited <;> exact .pure rfl
  · exact .bind fun _ => .pure rfl

/-- The outcomes with a child are those of the runs that `fork` gave one. -/
theorem runCgi_started_iff {cgi : CgiSetting} {answers rest : List CgiAnswer}
    {log : List CgiEvent} {outcome : CgiOutcome}
    (hleft : runCgi cgi answers = (log, some (outcome, rest))) :
    outcome.started = true ↔ ∃ pid, .fork (some pid) ∈ log := by
  rcases runCgi_cases cgi answers with ⟨hlog, houtcome⟩ |
    ⟨stdinPipe, stdoutPipe, pid, rest', rfl, -, hrun⟩
  · rw [hleft] at hlog houtcome
    simp [houtcome outcome rest rfl, hlog.unforked]
  · rw [hleft] at hrun
    cases hlog : parent cgi stdinPipe stdoutPipe pid rest' with
    | mk log' result =>
        rw [hlog] at hrun
        cases hrun
        have hstarted := parent_started cgi stdinPipe stdoutPipe pid rest' outcome rest
          (by rw [hlog])
        simp [hstarted]

/-- No descriptor and no child is acquired twice. -/
theorem acquired_runCgi_nodup (cgi : CgiSetting) (answers : List CgiAnswer) :
    (ledger.acquired (runCgi cgi answers).1).Nodup := by
  rcases runCgi_cases cgi answers with ⟨hlog, -⟩ |
    ⟨stdinPipe, stdoutPipe, pid, rest, rfl, hdistinct, hrun⟩
  · exact hlog.distinct
  · have hparent : ledger.acquired (parent cgi stdinPipe stdoutPipe pid rest).1 = 0 := by
      apply Ledger.acquired_eq_zero
      intro e he
      have hafter := logs_parent cgi stdinPipe stdoutPipe pid rest e he
      cases e <;> first | rfl | cases hafter
    have hacquired : ledger.acquired (runCgi cgi (.pipe (some stdinPipe) ::
        .pipe (some stdoutPipe) :: .fork (some pid) :: rest)).1 =
        .child pid ::ₘ ledger.acquired [.pipe (some stdinPipe), .pipe (some stdoutPipe)] := by
      rw [hrun, Ledger.acquired_cons, Ledger.acquired_cons, Ledger.acquired_cons, hparent,
        Ledger.acquired_cons, Ledger.acquired_cons, ← Multiset.singleton_add]
      change _ + (_ + (({.child pid} : Multiset Handle) + 0)) = _
      rw [Ledger.acquired_nil]
      abel
    rw [hacquired, Multiset.nodup_cons]
    exact ⟨by simp [ledger], acquired_pipes_nodup hdistinct⟩

end CgiCalls

end CppHttpd
