import CppHttpd.Http.Handlers.CgiContinuation
import CppHttpd.Http.Handlers.CgiDialogue
import CppHttpd.Http.Handlers.Containment

/-!
# How `run_cgi` ends

The handler is given the end of a run, the run itself is that of two processes.  What
a run can end in is all that the handler can be given, but that a program which is
sent nothing cannot keep the server from writing.
-/

namespace CppHttpd

open CppHttpd.Foundation

/-- What `run_cgi` comes to with some program, if it comes to an end. -/
inductive CgiSetting.EndsIn (cgi : CgiSetting) : CgiEnding → Prop
  /-- There is no child yet. -/
  | pipeFailed : EndsIn cgi (.returned .pipeFailed)
  | forkFailed : EndsIn cgi (.returned .forkFailed)
  | returned {s : CgiRun} {outcome : CgiOutcome} (hreached : (cgiProcesses cgi).Reached s)
      (hstage : s.stage = .returned outcome) : EndsIn cgi (.returned outcome)
  | terminated {s : CgiRun} (hreached : (cgiProcesses cgi).Reached s)
      (hstage : s.stage = .terminated) : EndsIn cgi .terminated
  /-- The child takes no further step. -/
  | blocked {s : CgiRun} (hreached : (cgiProcesses cgi).Reached s) (hblocked : s.Blocked cgi) :
      EndsIn cgi .waiting
  /-- The child keeps the parent busy. -/
  | endless {run : Nat → CgiRun} {labels : Nat → CgiLabel} (hstart : run 0 = .start cgi)
      (hsteps : ∀ n, (run n).step cgi (labels n) = some (run (n + 1)))
      (hparent : ∀ n, ∃ m, n ≤ m ∧ ∃ act, labels m = .parent act) : EndsIn cgi .waiting

namespace CgiRun

variable {cgi : CgiSetting} {s s' : CgiRun}

/-! ## Writes that fail -/

/-- Only a program that is sent something can keep the server from writing it. -/
def NeedsInput (cgi : CgiSetting) (s : CgiRun) : Prop :=
  match s.stage with
  | .writing _ _ => cgi.input = cgi.request.buffer
  | .waiting .writeFailed => cgi.sigpipeIgnored = true ∧ cgi.input ≠ []
  | .returned .writeFailed => cgi.sigpipeIgnored = true ∧ cgi.input ≠ []
  | .terminated => cgi.sigpipeIgnored = false ∧ cgi.input ≠ []
  | _ => True

theorem needsInput_start : NeedsInput cgi (start cgi) := by
  by_cases hpost : cgi.request.methodStr = ascii "POST"
  · have hstage : (start cgi).stage = .writing 0 0 := if_pos hpost
    simp only [NeedsInput, hstage]
    exact if_pos hpost
  · have hstage : (start cgi).stage = .closingInput := if_neg hpost
    simp only [NeedsInput, hstage]

theorem NeedsInput.returns {reason : WaitReason} (h : s.NeedsInput cgi)
    (hstage : s.stage = .waiting reason) (status : Option WaitStatus) :
    (s.returns status reason).NeedsInput cgi := by
  simp only [NeedsInput, hstage] at h
  cases reason with
  | writeFailed => exact h
  | childKilled => trivial
  | endOfOutput =>
      simp only [NeedsInput, CgiRun.returns, CgiRun.outcome]
      split_ifs <;> trivial

theorem NeedsInput.move (h : s.NeedsInput cgi) (hsound : s.Sound cgi)
    (hmove : ParentMove cgi s s') : s'.NeedsInput cgi := by
  have hinput {bytesWritten inCall : Nat} (hstage : s.stage = .writing bytesWritten inCall)
      (hleft : bytesWritten ≠ cgi.total) : cgi.input ≠ [] := by
    have hstageSound := hsound.stage
    simp only [StageSound, hstage] at hstageSound
    simp only [NeedsInput, hstage] at h
    rw [h, ← List.length_pos_iff]
    change 0 < cgi.total
    omega
  cases hmove with
  | puts hstage =>
      simp only [NeedsInput, hstage] at h
      unfold CgiRun.put
      split_ifs
      · exact h
      · exact h
  | writeReturns hstage =>
      simp only [NeedsInput, hstage] at h
      exact h
  | isTerminated hstage hleft hdefault => exact ⟨hdefault, hinput hstage hleft⟩
  | writeFails hstage hleft hclosed hignored => exact ⟨hignored, hinput hstage hleft⟩
  | returns hstage status => exact h.returns hstage status
  | closesInput => trivial
  | selects => trivial
  | ticks => trivial
  | isReady => trivial
  | reads => trivial
  | kills => trivial
  | reachesEnd => trivial

theorem needsInput_of_reached (h : (cgiProcesses cgi).Reached s) : s.NeedsInput cgi := by
  induction h with
  | init hinit => exact hinit ▸ needsInput_start
  | @step s s' label hs _ hstep ih =>
      cases label with
      | child act =>
          obtain ⟨hstage, -⟩ := childStep_same hstep
          unfold NeedsInput
          rw [hstage]
          exact ih
      | parent act => exact ih.move (sound_of_reached hs) (move_of_parentStep hstep)

/-! ## Runs to every end -/

theorem reached_go (h : (cgiProcesses cgi).Reached s) (hstep : s.goStep cgi = some s') :
    (cgiProcesses cgi).Reached s' := .step (l := .parent .go) h trivial hstep

theorem reached_child (h : (cgiProcesses cgi).Reached s) (act : ChildAct)
    (hstep : s.childStep cgi act = some s') : (cgiProcesses cgi).Reached s' :=
  .step (l := .child act) h trivial hstep

/-- The child has written nothing that was not read, and goes on. -/
structure Quiet (s : CgiRun) (cgiOutput : Bytes) : Prop where
  status : s.status = none
  stdoutPipe : s.stdoutPipe = {}
  cgiOutput : s.cgiOutput = cgiOutput

theorem reached_put {bytesWritten inCall n : Nat} (h : (cgiProcesses cgi).Reached s)
    (hstage : s.stage = .writing bytesWritten inCall) (hopen : s.stdinPipe.childOpen = true)
    (hput : s.MayPut cgi bytesWritten inCall n) :
    (cgiProcesses cgi).Reached (s.put cgi bytesWritten inCall n) :=
  .step (l := .parent (.put n)) h trivial (parentStep_put hstage hopen hput)

/-- One byte fits into a pipe that is empty. -/
theorem mayPut_one {k : Nat} (hempty : s.stdinPipe.bytes = []) (hlong : cgi.pipeBuf < cgi.total)
    (hk : k < cgi.total) : s.MayPut cgi 0 k 1 := by
  have hbuf := cgi.pipeBuf_pos
  have hcapacity := cgi.pipeBuf_le
  refine ⟨by omega, by omega, ?_, fun hle => by omega⟩
  rw [hempty, List.length_nil]
  omega

/-- A body that is too long to be written at once is read byte by byte. -/
theorem reached_writing (hpost : cgi.request.methodStr = ascii "POST")
    (hlong : cgi.pipeBuf < cgi.total) (k : Nat) (hk : k < cgi.total) :
    ∃ s, (cgiProcesses cgi).Reached s ∧ s.stage = .writing 0 k ∧ s.stdinPipe.childOpen = true ∧
      s.stdinPipe.bytes = [] ∧ s.Quiet [] := by
  induction k with
  | zero => exact ⟨start cgi, .init rfl, if_pos hpost, rfl, rfl, rfl, rfl, rfl⟩
  | succ k ih =>
      obtain ⟨s, hs, hstage, hopen, hempty, hquiet⟩ := ih (by omega)
      have hput := reached_put hs hstage hopen (mayPut_one hempty hlong (by omega))
      have hbytes : (s.put cgi 0 k 1).stdinPipe.bytes.length = 1 := by
        have hdata : (cgi.request.buffer.drop (0 + k)).length = cgi.total - (0 + k) :=
          List.length_drop
        simp only [put, hempty, List.nil_append, List.length_take, hdata]
        omega
      have hread : (s.put cgi 0 k 1).childStep cgi (.readInput 1) =
          some { s.put cgi 0 k 1 with
            stdinPipe.bytes := (s.put cgi 0 k 1).stdinPipe.bytes.drop 1 } := by
        have hstatus : (s.put cgi 0 k 1).status = none := hquiet.status
        rw [childStep, if_neg (not_not.2 hstatus)]
        exact if_pos ⟨hopen, hbytes.ge⟩
      have hpart : ¬ 0 + k + 1 = cgi.total := by omega
      exact ⟨_, reached_child hput _ hread, if_neg hpart, hopen,
        List.drop_eq_nil_of_le hbytes.le, hquiet.status, hquiet.stdoutPipe, hquiet.cgiOutput⟩

theorem reached_written (hpost : cgi.request.methodStr = ascii "POST") :
    ∃ s, (cgiProcesses cgi).Reached s ∧ s.stage = .writing cgi.total 0 ∧ s.Quiet [] := by
  have hcapacity := cgi.pipeBuf_le
  have hstart : (start cgi).stage = .writing 0 0 := if_pos hpost
  rcases Nat.eq_zero_or_pos cgi.total with hzero | hpos
  · exact ⟨start cgi, .init rfl, hzero ▸ hstart, rfl, rfl, rfl⟩
  rcases Nat.lt_or_ge cgi.pipeBuf cgi.total with hlong | hshort
  · obtain ⟨s, hs, hstage, hopen, hempty, hquiet⟩ :=
      reached_writing hpost hlong (cgi.total - 1) (by omega)
    exact ⟨_, reached_put hs hstage hopen (mayPut_one hempty hlong (by omega)),
      if_pos (by omega), hquiet.status, hquiet.stdoutPipe, hquiet.cgiOutput⟩
  · refine ⟨_, reached_put (.init rfl) hstart rfl (n := cgi.total) ?_, if_pos (by omega), rfl, rfl,
      rfl⟩
    refine ⟨hpos, by omega, ?_, fun _ => by omega⟩
    change 0 + cgi.total ≤ cgi.capacity
    omega

theorem reached_closingInput (cgi : CgiSetting) :
    ∃ s, (cgiProcesses cgi).Reached s ∧ s.stage = .closingInput ∧ s.Quiet [] := by
  by_cases hpost : cgi.request.methodStr = ascii "POST"
  · obtain ⟨s, hs, hstage, hquiet⟩ := reached_written hpost
    have hclose : s.goStep cgi = some { s with stage := .closingInput } := by
      simp only [goStep, hstage, if_true]
    exact ⟨_, reached_go hs hclose, rfl, hquiet.status, hquiet.stdoutPipe, hquiet.cgiOutput⟩
  · exact ⟨start cgi, .init rfl, if_neg hpost, rfl, rfl, rfl⟩

/-- The child writes and the parent reads, byte by byte. -/
theorem reached_selecting (cgi : CgiSetting) (output : Bytes) :
    ∃ s, (cgiProcesses cgi).Reached s ∧ s.stage = .selecting cgi.timeoutSec ∧
      s.Quiet output := by
  have hbuf := cgi.pipeBuf_pos
  have hcapacity := cgi.pipeBuf_le
  induction output using List.reverseRecOn with
  | nil =>
      obtain ⟨s, hs, hstage, hquiet⟩ := reached_closingInput cgi
      have hselect : s.goStep cgi = some (s.select cgi) := by simp only [goStep, hstage]
      exact ⟨_, reached_go hs hselect, rfl, hquiet.status, hquiet.stdoutPipe, hquiet.cgiOutput⟩
  | append_singleton output c ih =>
      obtain ⟨s, hs, hstage, hquiet⟩ := ih
      let wrote : CgiRun := { s with stdoutPipe := { bytes := [c] } }
      have hwrote : s.childStep cgi (.writeOutput [c]) = some wrote := by
        rw [childStep_writeOutput cgi hquiet.status, hquiet.stdoutPipe]
        exact if_pos ⟨rfl, by simp only [List.length_nil, List.length_singleton]; omega⟩
      have hready : wrote.goStep cgi = some { wrote with stage := .reading } := by
        simp only [goStep, wrote, hstage]
        exact if_pos (.inl (List.cons_ne_nil _ _))
      have htake : ({ wrote with stage := .reading } : CgiRun).parentStep cgi (.take 1) =
          some ({ wrote with
            stage := .reading
            stdoutPipe := {}
            cgiOutput := s.cgiOutput ++ [c] }.select cgi) := by
        simp only [parentStep, wrote]
        exact if_pos ⟨by decide, by decide, le_rfl⟩
      refine ⟨_, .step (l := .parent (.take 1)) (reached_go (reached_child hs _ hwrote) hready)
        trivial htake, rfl, hquiet.status, rfl, ?_⟩
      exact congrArg (· ++ [c]) hquiet.cgiOutput

/-- The parent finds the end of an output that it has read. -/
theorem reached_endOfOutput {left : Nat} (hs : (cgiProcesses cgi).Reached s)
    (hstage : s.stage = .selecting left) (hempty : s.stdoutPipe.bytes = [])
    (hclosed : s.stdoutPipe.childOpen = false) :
    (cgiProcesses cgi).Reached { s with stage := .waiting .endOfOutput } := by
  have hready : s.goStep cgi = some { s with stage := .reading } := by
    simp only [goStep, hstage]
    exact if_pos (.inr hclosed)
  have hend : ({ s with stage := .reading } : CgiRun).goStep cgi =
      some { s with stage := .waiting .endOfOutput } := if_pos ⟨hempty, hclosed⟩
  exact reached_go (reached_go hs hready) hend

/-- The child ends, and the parent hears of it. -/
theorem endsIn_exit (output : Bytes) (status : WaitStatus) :
    cgi.EndsIn (.returned (if waitForChild (some status) = true then .exited output
      else .exitFailed)) := by
  obtain ⟨s, hs, hstage, hquiet⟩ := reached_selecting cgi output
  have hexit : s.childStep cgi (.exit status) = some (s.childEnds status) := by
    rw [childStep, if_neg (not_not.2 hquiet.status)]
  have hempty : (s.childEnds status).stdoutPipe.bytes = [] := by
    simp only [childEnds, hquiet.stdoutPipe]
  have hend := reached_endOfOutput (reached_child hs _ hexit) hstage hempty rfl
  have hreturn : ({ s.childEnds status with stage := .waiting .endOfOutput } : CgiRun).goStep cgi =
      some ({ s.childEnds status with stage := .waiting .endOfOutput }.returns (some status)
        .endOfOutput) := rfl
  refine .returned (reached_go hend hreturn) ?_
  rw [← hquiet.cgiOutput]
  rfl

theorem endsIn_readFailed : cgi.EndsIn (.returned .readFailed) := by
  obtain ⟨s, hs, hstage, hquiet⟩ := reached_selecting cgi []
  have hfail : s.parentStep cgi .fail = some s.kill := by simp only [parentStep, hstage]
  have hstatus : s.kill.status = some .signalled := by
    rw [kill, if_pos hquiet.status]
    rfl
  have hreturn : s.kill.goStep cgi = some (s.kill.returns (some .signalled) .childKilled) := by
    have hwaiting : s.kill.stage = .waiting .childKilled := rfl
    simp only [goStep, hwaiting, hstatus, reduceCtorEq, if_false]
  exact .returned (reached_go (.step (l := .parent .fail) hs trivial hfail) hreturn) rfl

/-- The child closes its input while it is written. -/
theorem reached_brokenPipe (hinput : cgi.input ≠ []) :
    (cgiProcesses cgi).Reached
      (CgiRun.brokenPipe cgi { start cgi with stdinPipe.childOpen := false } 0 0) := by
  have hpost : cgi.request.methodStr = ascii "POST" := by
    by_contra hother
    exact hinput (if_neg hother)
  have htotal : ¬ 0 = cgi.total := by
    intro hzero
    apply hinput
    rw [CgiSetting.input, if_pos hpost]
    exact List.length_eq_zero_iff.1 hzero.symm
  have hstage : (start cgi).stage = .writing 0 0 := if_pos hpost
  refine reached_go (reached_child (.init rfl) .closeInput rfl) ?_
  simp only [goStep, hstage, if_neg htotal, Bool.false_eq_true, if_false]

theorem endsIn_waiting : cgi.EndsIn .waiting := by
  obtain ⟨s, hs, hstage, hquiet⟩ := reached_selecting cgi []
  let closed : CgiRun := { s with stdoutPipe.childOpen := false }
  have hclose : s.childStep cgi .closeOutput = some closed := by
    rw [childStep, if_neg (not_not.2 hquiet.status)]
  have hempty : closed.stdoutPipe.bytes = [] := by simp only [closed, hquiet.stdoutPipe]
  exact .blocked (reached_endOfOutput (reached_child hs _ hclose) hstage hempty rfl)
    (blocked_of_waiting rfl hquiet.status)

end CgiRun

/-! ## All ends -/

/-- Everything is a possible end, but a failed write for a program that is sent nothing. -/
theorem CgiSetting.endsIn_iff (cgi : CgiSetting) (ending : CgiEnding) :
    cgi.EndsIn ending ↔
      (ending = .returned .writeFailed → cgi.sigpipeIgnored = true ∧ cgi.input ≠ []) ∧
        (ending = .terminated → cgi.sigpipeIgnored = false ∧ cgi.input ≠ []) := by
  constructor
  · intro hends
    cases hends with
    | pipeFailed => simp
    | forkFailed => simp
    | @returned s outcome hreached hstage =>
        have hneeds := CgiRun.needsInput_of_reached hreached
        refine ⟨?_, nofun⟩
        rintro ⟨⟩
        simpa only [CgiRun.NeedsInput, hstage] using hneeds
    | terminated hreached hstage =>
        have hneeds := CgiRun.needsInput_of_reached hreached
        refine ⟨nofun, fun _ => ?_⟩
        simpa only [CgiRun.NeedsInput, hstage] using hneeds
    | blocked => simp
    | endless => simp
  · rintro ⟨hfailed, hterminated⟩
    cases ending with
    | waiting => exact CgiRun.endsIn_waiting
    | terminated =>
        obtain ⟨hdefault, hinput⟩ := hterminated rfl
        refine .terminated (CgiRun.reached_brokenPipe hinput) ?_
        rw [CgiRun.brokenPipe, if_pos hdefault]
    | returned outcome =>
        cases outcome with
        | pipeFailed => exact .pipeFailed
        | forkFailed => exact .forkFailed
        | readFailed => exact CgiRun.endsIn_readFailed
        | exitFailed => exact CgiRun.endsIn_exit [] .signalled
        | exited output => exact CgiRun.endsIn_exit output (.exited 0)
        | writeFailed =>
            obtain ⟨hignored, hinput⟩ := hfailed rfl
            have hbroken := CgiRun.reached_brokenPipe hinput
            rw [CgiRun.brokenPipe, if_neg (by simp [hignored]), if_neg (Nat.lt_irrefl 0)] at hbroken
            exact .returned (CgiRun.reached_go (CgiRun.reached_child hbroken (.exit .signalled) rfl)
              rfl) rfl

/-- If `run_cgi` returns, then with an outcome that its calls can have. -/
theorem CgiSetting.EndsIn.exists_answers {cgi : CgiSetting} {outcome : CgiOutcome}
    (h : cgi.EndsIn (.returned outcome)) :
    ∃ answers log, CgiCalls.runCgi cgi answers = (log, some (outcome, [])) := by
  cases h with
  | pipeFailed => exact ⟨[.pipe none], _, rfl⟩
  | forkFailed => exact ⟨[.pipe (some ⟨3, 4⟩), .pipe (some ⟨5, 6⟩), .fork none], _, rfl⟩
  | returned hreached hstage => exact CgiCalls.runCgi_of_reached hreached hstage

/-! ## What the handler makes of it -/

/--
Where a request is for a program, the handler returns or does not return as a run
of the two processes does, and what it returns is an outcome of the calls.
-/
theorem handle_endsIn {env : Environment} {config : Config} {request : HttpRequest}
    {clientRemoteAddr : Option Bytes} {vhost : VirtualHost} {path : Bytes}
    (hroute : route env config request = .cgi vhost path) {ending : CgiEnding}
    (hending : env.cgi (cgiCall config path request (some vhost) clientRemoteAddr) = ending)
    (hinput : (cgiCall config path request (some vhost) clientRemoteAddr).input = [] →
      ending ≠ .returned .writeFailed ∧ ending ≠ .terminated)
    (acceptingNewConnections : Bool) (s : OsState) :
    ∃ cgi : CgiSetting, cgi.request = request ∧ cgi.timeoutSeconds = config.timeoutSeconds ∧
      cgi.EndsIn ending ∧
      (∀ outcome, ending = .returned outcome →
        ∃ answers log, CgiCalls.runCgi cgi answers = (log, some (outcome, []))) ∧
      (handle env config request acceptingNewConnections clientRemoteAddr s).1 =
        ending.result env.uninitialised := by
  have hresult : (handle env config request acceptingNewConnections clientRemoteAddr s).1 =
      ending.result env.uninitialised := by
    rw [handle_eq, hroute, ← hending]
    rfl
  let cgi : CgiSetting := { request := request, timeoutSeconds := config.timeoutSeconds }
  rcases eq_or_ne ending .terminated with hterminated | hother
  · have hends : cgi.EndsIn ending := by
      refine (cgi.endsIn_iff ending).2 ⟨?_, fun _ => ⟨rfl, ?_⟩⟩
      · rw [hterminated]
        exact nofun
      · exact fun hempty => (hinput hempty).2 hterminated
    exact ⟨cgi, rfl, rfl, hends, fun _ heq => (heq ▸ hends).exists_answers, hresult⟩
  · let ignoring : CgiSetting := { cgi with sigpipeIgnored := true }
    have hends : ignoring.EndsIn ending := by
      refine (ignoring.endsIn_iff ending).2 ⟨fun hfailed => ⟨rfl, ?_⟩, ?_⟩
      · exact fun hempty => (hinput hempty).1 hfailed
      · exact fun hterminated => absurd hterminated hother
    exact ⟨ignoring, rfl, rfl, hends, fun _ heq => (heq ▸ hends).exists_answers, hresult⟩

end CppHttpd
