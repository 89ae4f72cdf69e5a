import CppHttpd.Http.Handlers.CgiCourse

/-!
# What `run_cgi` releases

Some of its helpers close descriptors and reap the child where they fail, and some
leave it to `run_cgi`.  Each has an account of what it needs and what it leaves.
-/

namespace CppHttpd

open CppHttpd.Foundation

namespace CgiCalls

/-! ## What each call needs -/

/-- `waitpid` for a child that was not reaped succeeds. -/
def Reaps (answer : CgiAnswer) : Prop := answer ≠ .waitpid none

/-- What is held before a program, and what after each of its results. -/
abbrev Owns {α : Type} (held : Multiset Handle) (p : CgiCalls α) (post : α → Multiset Handle) :
    Prop :=
  ledger.Triple Reaps held p post

section Calls

variable {α : Type} {held : Multiset Handle}

theorem owns_pipe (openFds : List Fd) :
    Owns held (pipe openFds) fun ends =>
      match ends with
      | none => held
      | some ends => {.fd ends.readEnd} + {.fd ends.writeEnd} + held := by
  apply Ledger.Triple.bind .ask
  intro ends
  cases ends with
  | none => exact .bind (.use rfl rfl (Multiset.zero_le held)) fun _ => .pure rfl
  | some ends => exact .bind (.acquire rfl (Multiset.zero_le held)) fun _ => .pure rfl

theorem owns_fork :
    Owns held fork fun child =>
      match child with
      | none => held
      | some pid => {.child pid} + held := by
  apply Ledger.Triple.bind .ask
  intro child
  cases child with
  | none => exact .bind (.use rfl rfl (Multiset.zero_le held)) fun _ => .pure rfl
  | some pid => exact .bind (.acquire rfl (Multiset.zero_le held)) fun _ => .pure rfl

theorem owns_close (fd : Fd) : Owns ({.fd fd} + held) (close fd) fun _ => held :=
  .release (L := ledger) rfl (Multiset.zero_le _)

theorem owns_write (fd : Fd) (data : Bytes) :
    Owns ({.fd fd} + held) (write fd data) fun _ => {.fd fd} + held :=
  .bind (.use rfl rfl (Multiset.le_add_right _ _)) fun _ => .ask

theorem owns_fdSet (fd : Fd) : Owns ({.fd fd} + held) (fdSet fd) fun _ => {.fd fd} + held :=
  .use rfl rfl (Multiset.le_add_right _ _)

theorem owns_select (nfds timeoutSec : Nat) :
    Owns held (select nfds timeoutSec) fun _ => held :=
  .bind (.use rfl rfl (Multiset.zero_le held)) fun _ => .ask

theorem owns_read (fd : Fd) : Owns ({.fd fd} + held) (read fd) fun _ => {.fd fd} + held :=
  .bind (.use rfl rfl (Multiset.le_add_right _ _)) fun _ => .ask

theorem owns_kill (pid : Pid) :
    Owns ({.child pid} + held) (kill pid) fun _ => {.child pid} + held :=
  .use rfl rfl (Multiset.le_add_right _ _)

theorem owns_waitpid (pid : Pid) : Owns ({.child pid} + held) (waitpid pid) fun _ => held := by
  apply Ledger.Triple.ask_bind
  intro answer status hreaps hread
  cases answer with
  | waitpid status' =>
      cases hread
      cases status with
      | none => exact absurd rfl hreaps
      | some status => exact .bind (.release (L := ledger) rfl le_rfl) fun _ => .pure rfl
  | _ => cases hread

end Calls

/-! ## What each helper does with it -/

theorem owns_setupCgiPipes :
    Owns 0 setupCgiPipes fun pipes =>
      match pipes with
      | none => 0
      | some (stdinPipe, stdoutPipe) =>
          {.fd stdinPipe.readEnd} + {.fd stdinPipe.writeEnd} +
            ({.fd stdoutPipe.readEnd} + {.fd stdoutPipe.writeEnd}) := by
  apply (owns_pipe []).bind
  intro first
  cases first with
  | none => exact .pure rfl
  | some stdinPipe =>
      apply (owns_pipe _).bind
      intro second
      cases second with
      | none =>
          apply Ledger.Triple.bind (.of_eq (add_assoc _ _ _) (owns_close stdinPipe.readEnd))
          intro _
          apply Ledger.Triple.bind (owns_close stdinPipe.writeEnd)
          intro _
          exact .pure rfl
      | some stdoutPipe => exact .pure (by simp only [add_zero]; abel)

/-- If the body was not written, neither the descriptor nor the child is left. -/
theorem owns_writePostBodyToChild (stdinFd : Fd) (body : Bytes) (pid : Pid) :
    Owns ({.fd stdinFd} + {.child pid}) (writePostBodyToChild stdinFd body pid) fun written =>
      if written = true then {.fd stdinFd} + {.child pid} else 0 := by
  apply Ledger.Triple.loop
  intro bytesWritten
  unfold writeTurn
  split_ifs with hleft
  · apply (owns_write stdinFd _).bind
    intro written
    cases written with
    | ok n => exact .pure rfl
    | interrupted => exact .pure rfl
    | failed =>
        apply (owns_close stdinFd).bind
        intro _
        apply Ledger.Triple.bind (.of_eq (add_zero _).symm (owns_waitpid pid))
        intro _
        exact .pure rfl
  · exact .pure rfl

theorem owns_writeBody (cgi : CgiSetting) (stdinFd : Fd) (pid : Pid) :
    Owns ({.fd stdinFd} + {.child pid}) (writeBody cgi stdinFd pid) fun written =>
      if written = true then {.fd stdinFd} + {.child pid} else 0 := by
  unfold writeBody
  split_ifs
  · exact owns_writePostBodyToChild stdinFd _ pid
  · exact .pure rfl

theorem owns_giveUp (pid : Pid) {held : Multiset Handle}
    {post : Bytes ⊕ Option Bytes → Multiset Handle} (heq : held = post (.inr none)) :
    Owns ({.child pid} + held) (giveUp pid) post := by
  apply (owns_kill pid).bind
  intro _
  apply (owns_waitpid pid).bind
  intro _
  exact .pure heq

/-- If there is no output, the child is not left, and the descriptor is. -/
theorem owns_readChildOutput (timeoutSec : Nat) (stdoutFd : Fd) (pid : Pid) :
    Owns ({.fd stdoutFd} + {.child pid}) (readChildOutput timeoutSec stdoutFd pid) fun output =>
      if output.isSome = true then {.fd stdoutFd} + {.child pid} else {.fd stdoutFd} := by
  apply Ledger.Triple.loop
  intro cgiOutput
  unfold readTurn
  apply (owns_fdSet stdoutFd).bind
  intro _
  apply (owns_select _ _).bind
  intro ready
  have hgiveUp : Owns ({.fd stdoutFd} + {.child pid}) (giveUp pid)
      (Sum.elim (fun _ => {.fd stdoutFd} + {.child pid}) fun output =>
        if output.isSome = true then {.fd stdoutFd} + {.child pid} else {.fd stdoutFd}) :=
    .of_eq (add_comm _ _) (owns_giveUp pid rfl)
  split
  · exact hgiveUp
  · exact .pure rfl
  · exact hgiveUp
  · apply (owns_read stdoutFd).bind
    intro data
    split
    · exact .pure rfl
    · exact .pure rfl
    · exact hgiveUp
    · exact .pure rfl

theorem owns_waitForChild (pid : Pid) : Owns {.child pid} (waitForChild pid) fun _ => 0 := by
  apply Ledger.Triple.bind (.of_eq (add_zero _).symm (owns_waitpid pid))
  intro _
  exact .pure rfl

/-- The parent's part after `fork`. -/
theorem owns_parent (cgi : CgiSetting) (stdinPipe stdoutPipe : PipeEnds) (pid : Pid) :
    Owns ({.child pid} + ({.fd stdinPipe.readEnd} + {.fd stdinPipe.writeEnd} +
      ({.fd stdoutPipe.readEnd} + {.fd stdoutPipe.writeEnd})))
      (parent cgi stdinPipe stdoutPipe pid) fun _ => 0 := by
  have horder : ({Handle.child pid} : Multiset Handle) +
      ({.fd stdinPipe.readEnd} + {.fd stdinPipe.writeEnd} +
        ({.fd stdoutPipe.readEnd} + {.fd stdoutPipe.writeEnd})) =
      {.fd stdinPipe.readEnd} + ({.fd stdoutPipe.writeEnd} +
        ({.fd stdinPipe.writeEnd} + {.child pid} + {.fd stdoutPipe.readEnd})) := by
    abel
  apply Ledger.Triple.bind (.of_eq horder (owns_close stdinPipe.readEnd))
  intro _
  apply (owns_close stdoutPipe.writeEnd).bind
  intro _
  apply ((owns_writeBody cgi stdinPipe.writeEnd pid).frame {.fd stdoutPipe.readEnd}).bind
  intro written
  cases written with
  | true =>
      apply Ledger.Triple.bind (.of_eq (add_assoc _ _ _) (owns_close stdinPipe.writeEnd))
      intro _
      apply Ledger.Triple.bind (.of_eq (add_comm _ _) (owns_readChildOutput _ _ pid))
      intro output
      cases output with
      | none =>
          apply Ledger.Triple.bind (.of_eq (add_zero _).symm (owns_close stdoutPipe.readEnd))
          intro _
          exact .pure rfl
      | some cgiOutput =>
          apply (owns_close stdoutPipe.readEnd).bind
          intro _
          apply (owns_waitForChild pid).bind
          intro exited
          exact .pure rfl
  | false =>
      apply Ledger.Triple.bind (.of_eq (add_comm _ _) (owns_close stdoutPipe.readEnd))
      intro _
      exact .pure rfl

theorem owns_runCgi (cgi : CgiSetting) : Owns 0 (runCgi cgi) fun _ => 0 := by
  apply owns_setupCgiPipes.bind
  intro pipes
  match pipes with
  | none => exact .pure rfl
  | some (stdinPipe, stdoutPipe) =>
      apply owns_fork.bind
      intro child
      cases child with
      | none =>
          apply Ledger.Triple.bind (.of_eq (add_assoc _ _ _) (owns_close stdinPipe.readEnd))
          intro _
          apply (owns_close stdinPipe.writeEnd).bind
          intro _
          apply (owns_close stdoutPipe.readEnd).bind
          intro _
          apply Ledger.Triple.bind (.of_eq (add_zero _).symm (owns_close stdoutPipe.writeEnd))
          intro _
          exact .pure rfl
      | some pid => exact owns_parent cgi stdinPipe stdoutPipe pid

/-! ## Everything is released once -/

/-- The child is waited for, and is reaped. -/
def CgiEvent.reaps (pid : Pid) : CgiEvent → Bool
  | .waitpid child (some _) => child = pid
  | _ => false

/-- A signal to the child, or a wait for it. -/
def CgiEvent.sentTo (pid : Pid) : CgiEvent → Bool
  | .kill child => child = pid
  | .waitpid child _ => child = pid
  | _ => false

structure ReleasedOnce (log : List CgiEvent) : Prop where
  closed : ∀ ends, .pipe (some ends) ∈ log →
    log.count (.close ends.readEnd) = 1 ∧ log.count (.close ends.writeEnd) = 1
  reaped : ∀ pid, .fork (some pid) ∈ log → log.countP (CgiEvent.reaps pid) = 1
  quiet : ∀ pid before e after, log = before ++ e :: after → CgiEvent.reaps pid e = true →
    ∀ e' ∈ after, CgiEvent.sentTo pid e' = false

theorem count_released_fd (fd : Fd) (log : List CgiEvent) :
    (ledger.released log).count (.fd fd) = log.count (.close fd) := by
  apply Ledger.count_released
  intro e
  cases e with
  | close fd' =>
      rcases eq_or_ne fd fd' with rfl | hne
      · simp [ledger]
      · simp [ledger, hne, hne.symm]
  | waitpid child status => cases status <;> simp [ledger]
  | _ => rfl

theorem count_released_child (pid : Pid) (log : List CgiEvent) :
    (ledger.released log).count (.child pid) = log.countP (CgiEvent.reaps pid) := by
  apply Ledger.count_released
  intro e
  cases e with
  | close fd => simp [ledger, CgiEvent.reaps]
  | waitpid child status =>
      rcases eq_or_ne pid child with rfl | hne
      · cases status <;> simp [ledger, CgiEvent.reaps]
      · cases status <;> simp [ledger, CgiEvent.reaps, hne, hne.symm]
  | _ => rfl

theorem releases_of_reaps {pid : Pid} {e : CgiEvent} (h : CgiEvent.reaps pid e = true) :
    Handle.child pid ∈ ledger.releases e := by
  unfold CgiEvent.reaps at h
  split at h
  · cases of_decide_eq_true h
    exact Multiset.mem_singleton_self _
  · cases h

theorem uses_of_sentTo {pid : Pid} {e : CgiEvent} (h : CgiEvent.sentTo pid e = true) :
    Handle.child pid ∈ ledger.uses e := by
  unfold CgiEvent.sentTo at h
  split at h
  · cases of_decide_eq_true h
    exact Multiset.mem_singleton_self _
  · cases of_decide_eq_true h
    exact Multiset.mem_singleton_self _
  · cases h

theorem releasedOnce_of_replays {log : List CgiEvent} (hreplays : ledger.Replays 0 log 0)
    (hdistinct : (ledger.acquired log).Nodup) : ReleasedOnce log := by
  have hreleased {h : Handle} {e : CgiEvent} (he : e ∈ log) (hh : h ∈ ledger.acquires e) :
      (ledger.released log).count h = 1 := by
    rw [hreplays.released_eq]
    exact Multiset.count_eq_one_of_mem hdistinct (Ledger.mem_acquired he hh)
  refine ⟨?_, ?_, ?_⟩
  · intro ends hmem
    rw [← count_released_fd, ← count_released_fd]
    exact ⟨hreleased hmem (by simp [ledger]), hreleased hmem (by simp [ledger])⟩
  · intro pid hmem
    rw [← count_released_child]
    exact hreleased hmem (by simp [ledger])
  · rintro pid before e after rfl hreaps e' he'
    have hleft := hreplays.after_release hdistinct (releases_of_reaps hreaps) he'
    rw [← Bool.not_eq_true]
    exact fun hsent => hleft.1 (uses_of_sentTo hsent)

/-- However `run_cgi` is left, every descriptor of a pipe was closed once, the child was reaped
once, and nothing was sent to it afterwards. -/
theorem runCgi_releasesOnce {cgi : CgiSetting} {answers rest : List CgiAnswer}
    {log : List CgiEvent} {outcome : CgiOutcome}
    (hwaits : ∀ answer ∈ answers, answer ≠ .waitpid none)
    (hleft : runCgi cgi answers = (log, some (outcome, rest))) : ReleasedOnce log := by
  have hdistinct := acquired_runCgi_nodup cgi answers
  have hreplays := (owns_runCgi cgi answers outcome rest hwaits (by rw [hleft])).1
  rw [hleft] at hdistinct hreplays
  exact releasedOnce_of_replays hreplays hdistinct

/-- A body of one byte, with a signal in each loop. -/
theorem runCgi_releasesOnce_post :
    ReleasedOnce [.pipe (some ⟨3, 4⟩), .pipe (some ⟨5, 6⟩), .fork (some 7), .close 3, .close 6,
      .write 4 [65], .write 4 [65], .close 4, .fdSet 5, .select 6 30, .fdSet 5, .select 6 30,
      .read 5, .fdSet 5, .select 6 30, .read 5, .close 5, .waitpid 7 (some (.exited 0))] := by
  let cgi : CgiSetting := { request := { methodStr := ascii "POST", buffer := [65] } }
  let answers : List CgiAnswer := [.pipe (some ⟨3, 4⟩), .pipe (some ⟨5, 6⟩), .fork (some 7),
    .write .interrupted, .write (.ok 1), .select .interrupted, .select (.ok 1), .read (.ok [72]),
    .select (.ok 1), .read (.ok []), .waitpid (some (.exited 0))]
  have hleft : runCgi cgi answers = (_, some (.exited [72], [])) := rfl
  exact runCgi_releasesOnce (by simp [answers]) hleft

end CgiCalls

end CppHttpd
