import CppHttpd.Http.Handlers.CgiWaits

/-!
# What goes through the pipes

The child reads what the parent writes, and the parent what the child writes.
Whatever the order of their steps, no byte is lost, made up or taken twice, and
what `run_cgi` returns is explained by what has happened between the two.
-/

namespace CppHttpd

open CppHttpd.Foundation

/-- The part of the request that is meant for the child. -/
def CgiSetting.input (cgi : CgiSetting) : Bytes :=
  if cgi.request.methodStr = ascii "POST" then cgi.request.buffer else []

/-- What the child has read and written, and what else the parent noticed. -/
structure CgiDialogue where
  consumed : Bytes := []
  produced : Bytes := []
  /-- The seconds since the child has written something. -/
  silence : Nat := 0
  interrupted : Bool := false
  failed : Bool := false

namespace CgiDialogue

def step (s : CgiRun) (label : CgiLabel) (d : CgiDialogue) : CgiDialogue :=
  match label with
  | .child (.readInput n) => { d with consumed := d.consumed ++ s.stdinPipe.bytes.take n }
  | .child (.writeOutput data) =>
      { d with
        produced := d.produced ++ data
        silence := if data = [] then d.silence else 0 }
  | .parent .second => { d with silence := d.silence + 1 }
  | .parent .interrupt => { d with interrupted := true }
  | .parent .fail => { d with failed := true }
  | _ => d

def ofTrace : List (CgiRun × CgiLabel) → CgiDialogue
  | [] => {}
  | (s, label) :: trace => step s label (ofTrace trace)

/-- As much of the input is in the pipe, or has been read, as the parent has written. -/
def Sends (d : CgiDialogue) (cgi : CgiSetting) (s : CgiRun) : Prop :=
  let written := d.consumed ++ s.stdinPipe.bytes
  match s.stage with
  | .writing bytesWritten inCall =>
      cgi.input = cgi.request.buffer ∧ written = cgi.input.take (bytesWritten + inCall)
  | .waiting .writeFailed => written <+: cgi.input ∧ s.stdinPipe.childOpen = false
  | .returned .writeFailed => written <+: cgi.input ∧ s.stdinPipe.childOpen = false
  | .terminated => written <+: cgi.input ∧ s.stdinPipe.childOpen = false
  | _ => written = cgi.input

/-- The child is killed for a call that has failed, or when it was silent for too long. -/
def Killed (d : CgiDialogue) (cgi : CgiSetting) (s : CgiRun) : Prop :=
  s.status ≠ none ∧ (d.failed = true ∨ cgi.timeoutSec ≤ d.silence)

def Explains (d : CgiDialogue) (cgi : CgiSetting) (s : CgiRun) : Prop :=
  match s.stage with
  | .selecting left => s.Ready ∨ cgi.timeoutSec ≤ left + d.silence
  | .waiting .endOfOutput => s.stdoutPipe.bytes = [] ∧ s.stdoutPipe.childOpen = false
  | .waiting .childKilled => d.Killed cgi s
  | .returned (.exited output) => output = d.produced ∧ s.status = some (.exited 0)
  | .returned .exitFailed =>
      d.interrupted = true ∨ s.status ≠ none ∧ s.status ≠ some (.exited 0)
  | .returned .readFailed => d.Killed cgi s
  | .returned .pipeFailed => False
  | .returned .forkFailed => False
  | _ => True

structure Follows (d : CgiDialogue) (cgi : CgiSetting) (s : CgiRun) : Prop where
  sends : d.Sends cgi s
  hears : s.cgiOutput ++ s.stdoutPipe.bytes = d.produced
  explains : d.Explains cgi s

variable {cgi : CgiSetting} {d : CgiDialogue} {s s' : CgiRun}

theorem follows_start (cgi : CgiSetting) : Follows {} cgi (.start cgi) := by
  by_cases hpost : cgi.request.methodStr = ascii "POST"
  · have hstage : (CgiRun.start cgi).stage = .writing 0 0 := if_pos hpost
    refine ⟨?_, rfl, ?_⟩
    · simp only [Sends, hstage]
      exact ⟨if_pos hpost, rfl⟩
    · simp only [Explains, hstage]
  · have hstage : (CgiRun.start cgi).stage = .closingInput := if_neg hpost
    refine ⟨?_, rfl, ?_⟩
    · simp only [Sends, hstage]
      exact (if_neg hpost).symm
    · simp only [Explains, hstage]

/-! ## Steps of the child -/

/-- Nothing is said about the input but what was written of it and whether it is read. -/
theorem Sends.of_same (h : d.Sends cgi s) {d' : CgiDialogue} (hstage : s'.stage = s.stage)
    (hwritten : d'.consumed ++ s'.stdinPipe.bytes = d.consumed ++ s.stdinPipe.bytes)
    (hclosed : s.stdinPipe.childOpen = false → s'.stdinPipe.childOpen = false) :
    d'.Sends cgi s' := by
  unfold Sends at h ⊢
  rw [hstage, hwritten]
  dsimp only at h ⊢
  split at h
  case h_1 => exact h
  case h_2 => exact ⟨h.1, hclosed h.2⟩
  case h_3 => exact ⟨h.1, hclosed h.2⟩
  case h_4 => exact ⟨h.1, hclosed h.2⟩
  case h_5 => exact h

/-- What is said about a child that has ended does not matter to one that has not. -/
theorem Explains.of_running (h : d.Explains cgi s) (hrunning : s.status = none)
    {d' : CgiDialogue} (hstage : s'.stage = s.stage) (hinterrupted : d'.interrupted = d.interrupted)
    (hselecting : ∀ left, s.Ready ∨ cgi.timeoutSec ≤ left + d.silence →
      s'.Ready ∨ cgi.timeoutSec ≤ left + d'.silence)
    (hend : s.stdoutPipe.bytes = [] ∧ s.stdoutPipe.childOpen = false →
      s'.stdoutPipe.bytes = [] ∧ s'.stdoutPipe.childOpen = false) : d'.Explains cgi s' := by
  unfold Explains at h ⊢
  rw [hstage]
  split at h
  case h_1 left _ => exact hselecting left h
  case h_2 => exact hend h
  case h_3 => exact absurd hrunning h.1
  case h_4 => simp [hrunning] at h
  case h_5 =>
    rw [hinterrupted]
    exact .inl (h.resolve_right fun hended => hended.1 hrunning)
  case h_6 => exact absurd hrunning h.1
  case h_7 => exact h
  case h_8 => exact h
  case h_9 => trivial

theorem Follows.childStep (h : d.Follows cgi s) {act : ChildAct}
    (hstep : s.childStep cgi act = some s') : (d.step s (.child act)).Follows cgi s' := by
  unfold CgiRun.childStep at hstep
  split_ifs at hstep with hstatus
  rw [not_not] at hstatus
  cases act with
  | readInput n =>
      dsimp only at hstep
      split_ifs at hstep
      cases hstep
      refine ⟨h.sends.of_same rfl ?_ id, h.hears,
        h.explains.of_running hstatus rfl rfl (fun _ => id) id⟩
      simp only [step, List.append_assoc, List.take_append_drop]
  | writeOutput data =>
      dsimp only at hstep
      split_ifs at hstep with hopen
      cases hstep
      refine ⟨h.sends.of_same rfl rfl id, ?_,
        h.explains.of_running hstatus rfl rfl (fun left hselecting => ?_) fun hend => ?_⟩
      · simp only [step, ← h.hears, List.append_assoc]
      · by_cases hdata : data = []
        · simpa [step, hdata, CgiRun.Ready] using hselecting
        · exact .inl (.inl (List.append_ne_nil_of_right_ne_nil _ hdata))
      · rw [hopen.1] at hend
        cases hend.2
  | closeInput =>
      cases hstep
      exact ⟨h.sends.of_same rfl rfl fun _ => rfl, h.hears,
        h.explains.of_running hstatus rfl rfl (fun _ => id) id⟩
  | closeOutput =>
      cases hstep
      exact ⟨h.sends.of_same rfl rfl id, h.hears, h.explains.of_running hstatus rfl rfl
        (fun _ _ => .inl (.inr rfl)) fun hend => ⟨hend.1, rfl⟩⟩
  | exit status =>
      cases hstep
      exact ⟨h.sends.of_same rfl rfl fun _ => rfl, h.hears, h.explains.of_running hstatus rfl rfl
        (fun _ _ => .inl (.inr rfl)) fun hend => ⟨hend.1, rfl⟩⟩

/-! ## Steps of the parent -/

/-- The parent starts to wait for output anew. -/
theorem follows_select (hwritten : d.consumed ++ s.stdinPipe.bytes = cgi.input)
    (hhears : s.cgiOutput ++ s.stdoutPipe.bytes = d.produced) : d.Follows cgi (s.select cgi) :=
  ⟨hwritten, hhears, .inr (Nat.le_add_right _ _)⟩

theorem follows_kill (hwritten : d.consumed ++ s.stdinPipe.bytes = cgi.input)
    (hhears : s.cgiOutput ++ s.stdoutPipe.bytes = d.produced)
    (hreason : d.failed = true ∨ cgi.timeoutSec ≤ d.silence) : d.Follows cgi s.kill := by
  unfold CgiRun.kill
  split_ifs with hstatus
  · exact ⟨hwritten, hhears, nofun, hreason⟩
  · exact ⟨hwritten, hhears, hstatus, hreason⟩

theorem waitForChild_eq {status : Option WaitStatus} (h : CgiRun.waitForChild status = true) :
    status = some (.exited 0) := by
  cases status with
  | none => cases h
  | some status =>
      cases status with
      | exited code =>
          simp only [CgiRun.waitForChild, decide_eq_true_eq] at h
          rw [h]
      | signalled => cases h

theorem Follows.returns (h : d.Follows cgi s) {reason : WaitReason}
    (hstage : s.stage = .waiting reason) {d' : CgiDialogue} {status : Option WaitStatus}
    (hsame : d'.consumed = d.consumed ∧ d'.produced = d.produced ∧ d'.silence = d.silence ∧
      d'.failed = d.failed)
    (hstatus : status = s.status ∧ s.status ≠ none ∨ status = none ∧ d'.interrupted = true) :
    d'.Follows cgi (s.returns status reason) := by
  obtain ⟨hconsumed, hproduced, hsilence, hfailed⟩ := hsame
  have hsends := h.sends
  have hexplains := h.explains
  have hhears := h.hears
  simp only [Sends, Explains, hstage] at hsends hexplains
  cases reason with
  | writeFailed =>
      refine ⟨?_, hproduced ▸ hhears, trivial⟩
      simp only [Sends, CgiRun.returns, CgiRun.outcome, hconsumed]
      exact hsends
  | childKilled =>
      refine ⟨?_, hproduced ▸ hhears, ?_⟩
      · simp only [Sends, CgiRun.returns, CgiRun.outcome, hconsumed]
        exact hsends
      · simp only [Explains, CgiRun.returns, CgiRun.outcome, Killed, hsilence, hfailed]
        exact hexplains
  | endOfOutput =>
      simp only [CgiRun.returns, CgiRun.outcome]
      split_ifs with hexited
      · have hzero := waitForChild_eq hexited
        have hown := hstatus.resolve_right fun hnone => by rw [hnone.1] at hzero; cases hzero
        refine ⟨?_, hproduced ▸ hhears, ?_, ?_⟩
        · simp only [Sends, hconsumed]
          exact hsends
        · rw [hproduced, ← hhears, hexplains.1, List.append_nil]
        · exact hown.1 ▸ hzero
      · refine ⟨?_, hproduced ▸ hhears, ?_⟩
        · simp only [Sends, hconsumed]
          exact hsends
        · rcases hstatus with ⟨hown, hended⟩ | ⟨-, hinterrupted⟩
          · refine .inr ⟨hended, fun hzero => hexited ?_⟩
            rw [hown, hzero]
            rfl
          · exact .inl hinterrupted

theorem Follows.put (h : d.Follows cgi s) {bytesWritten inCall n : Nat}
    (hstage : s.stage = .writing bytesWritten inCall) :
    d.Follows cgi (s.put cgi bytesWritten inCall n) := by
  have hsends := h.sends
  simp only [Sends, hstage] at hsends
  obtain ⟨hpost, hwritten⟩ := hsends
  have hmore : d.consumed ++ (s.stdinPipe.bytes ++
      (cgi.request.buffer.drop (bytesWritten + inCall)).take n) =
      cgi.input.take (bytesWritten + inCall + n) := by
    rw [← List.append_assoc, hwritten, ← hpost]
    exact List.take_add.symm
  unfold CgiRun.put
  refine ⟨?_, h.hears, ?_⟩
  · split_ifs with hall
    · refine ⟨hpost, ?_⟩
      rw [hall] at hmore
      exact hmore
    · exact ⟨hpost, by rw [← Nat.add_assoc]; exact hmore⟩
  · split_ifs
    · trivial
    · trivial

theorem Follows.goStep (h : d.Follows cgi s) (hstep : s.goStep cgi = some s') :
    d.Follows cgi s' := by
  have hsends := h.sends
  have hexplains := h.explains
  unfold CgiRun.goStep at hstep
  split at hstep
  case h_1 bytesWritten inCall hstage =>
    simp only [Sends, hstage] at hsends
    obtain ⟨hpost, hwritten⟩ := hsends
    split_ifs at hstep with htotal hopen
    · cases hstep
      refine ⟨?_, h.hears, trivial⟩
      rw [List.take_of_length_le] at hwritten
      · exact hwritten
      · rw [hpost, htotal]
        exact Nat.le_add_right _ _
    · cases hstep
      have hbegins : d.consumed ++ s.stdinPipe.bytes <+: cgi.input :=
        hwritten ▸ List.take_prefix _ _
      rw [Bool.not_eq_true] at hopen
      unfold CgiRun.brokenPipe
      split_ifs
      · exact ⟨⟨hbegins, hopen⟩, h.hears, trivial⟩
      · exact ⟨⟨hpost, hwritten⟩, h.hears, trivial⟩
      · exact ⟨⟨hbegins, hopen⟩, h.hears, trivial⟩
  case h_2 hstage =>
    cases hstep
    simp only [Sends, hstage] at hsends
    exact follows_select hsends h.hears
  case h_3 left hstage =>
    simp only [Sends, Explains, hstage] at hsends hexplains
    split_ifs at hstep with hready htime
    · cases hstep
      exact ⟨hsends, h.hears, trivial⟩
    · cases hstep
      refine follows_kill hsends h.hears (.inr ?_)
      simpa [htime] using hexplains.resolve_left hready
  case h_4 hstage =>
    simp only [Sends, hstage] at hsends
    split_ifs at hstep with hend
    cases hstep
    exact ⟨hsends, h.hears, hend⟩
  case h_5 reason hstage =>
    split_ifs at hstep with hstatus
    cases hstep
    exact h.returns hstage ⟨rfl, rfl, rfl, rfl⟩ (.inl ⟨rfl, hstatus⟩)
  all_goals cases hstep

theorem Follows.interruptStep (h : d.Follows cgi s) (hstep : s.interruptStep cgi = some s') :
    { d with interrupted := true }.Follows cgi s' := by
  have hsends := h.sends
  unfold CgiRun.interruptStep at hstep
  split at hstep
  case h_1 bytesWritten inCall hstage =>
    simp only [Sends, hstage] at hsends
    split_ifs at hstep
    cases hstep
    exact ⟨hsends, h.hears, trivial⟩
  case h_2 left hstage =>
    cases hstep
    simp only [Sends, hstage] at hsends
    exact follows_select hsends h.hears
  case h_3 hstage =>
    cases hstep
    simp only [Sends, hstage] at hsends
    exact follows_select hsends h.hears
  case h_4 reason hstage =>
    cases hstep
    exact h.returns hstage ⟨rfl, rfl, rfl, rfl⟩ (.inr ⟨rfl, rfl⟩)
  case h_5 => cases hstep

theorem Follows.parentStep (h : d.Follows cgi s) {act : ParentAct}
    (hstep : s.parentStep cgi act = some s') : (d.step s (.parent act)).Follows cgi s' := by
  have hsends := h.sends
  have hexplains := h.explains
  unfold CgiRun.parentStep at hstep
  split at hstep
  case h_1 n bytesWritten inCall hstage =>
    split_ifs at hstep
    cases hstep
    exact h.put hstage
  case h_2 n hstage =>
    split_ifs at hstep
    cases hstep
    simp only [Sends, hstage] at hsends
    refine follows_select hsends ?_
    rw [List.append_assoc, List.take_append_drop]
    exact h.hears
  case h_3 left hstage =>
    cases hstep
    simp only [Sends, Explains, hstage] at hsends hexplains
    refine ⟨hsends, h.hears, hexplains.imp_right fun hle => ?_⟩
    simp only [step]
    omega
  case h_4 left hstage =>
    cases hstep
    simp only [Sends, hstage] at hsends
    exact follows_kill hsends h.hears (.inl rfl)
  case h_5 hstage =>
    cases hstep
    simp only [Sends, hstage] at hsends
    exact follows_kill hsends h.hears (.inl rfl)
  case h_6 => exact h.goStep hstep
  case h_7 => exact h.interruptStep hstep
  case h_8 => cases hstep

theorem follows_of_run {trace : List (CgiRun × CgiLabel)}
    (hrun : (cgiProcesses cgi).Run trace s) : (ofTrace trace).Follows cgi s := by
  induction hrun with
  | init hinit => exact hinit ▸ follows_start cgi
  | @step trace s s' label _ hstep ih =>
      cases label with
      | child act => exact ih.childStep hstep
      | parent act => exact ih.parentStep hstep

end CgiDialogue

end CppHttpd
