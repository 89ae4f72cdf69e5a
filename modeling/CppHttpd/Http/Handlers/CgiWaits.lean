import CppHttpd.Http.Handlers.CgiProcess

/-!
# How long `run_cgi` waits

Only `select` has a timeout.  From a state in which the child stops for good, the
parent comes to a call without one that does not return, unless what is left of
the body fits into the pipe and the child has not closed its output.
-/

namespace CppHttpd

open CppHttpd.Foundation

namespace CgiRun

variable {cgi : CgiSetting} {s s' : CgiRun}

/-! ## What the parent can do -/

inductive ParentMove (cgi : CgiSetting) (s : CgiRun) : CgiRun → Prop
  | puts {bytesWritten inCall n : Nat} (hstage : s.stage = .writing bytesWritten inCall)
      (hopen : s.stdinPipe.childOpen = true) (hput : s.MayPut cgi bytesWritten inCall n) :
      ParentMove cgi s (s.put cgi bytesWritten inCall n)
  | writeReturns {bytesWritten inCall : Nat} (hstage : s.stage = .writing bytesWritten inCall)
      (hleft : bytesWritten ≠ cgi.total) :
      ParentMove cgi s (s.writeReturns bytesWritten inCall)
  | closesInput {inCall : Nat} (hstage : s.stage = .writing cgi.total inCall) :
      ParentMove cgi s { s with stage := .closingInput }
  | isTerminated {bytesWritten inCall : Nat} (hstage : s.stage = .writing bytesWritten inCall)
      (hleft : bytesWritten ≠ cgi.total) (hdefault : cgi.sigpipeIgnored = false) :
      ParentMove cgi s { s with stage := .terminated }
  | writeFails {bytesWritten inCall : Nat} (hstage : s.stage = .writing bytesWritten inCall)
      (hleft : bytesWritten ≠ cgi.total) (hclosed : s.stdinPipe.childOpen = false)
      (hignored : cgi.sigpipeIgnored = true) :
      ParentMove cgi s { s with stage := .waiting .writeFailed }
  | selects (hstage : s.stage = .closingInput ∨ (∃ left, s.stage = .selecting left) ∨
      s.stage = .reading) : ParentMove cgi s (s.select cgi)
  | ticks {left : Nat} (hstage : s.stage = .selecting (left + 1)) :
      ParentMove cgi s { s with stage := .selecting left }
  | isReady {left : Nat} (hstage : s.stage = .selecting left) (hready : s.Ready) :
      ParentMove cgi s { s with stage := .reading }
  | reads {n : Nat} (hstage : s.stage = .reading)
      (hbytes : 0 < n ∧ n ≤ s.stdoutPipe.bytes.length) :
      ParentMove cgi s ({ s with
        stdoutPipe.bytes := s.stdoutPipe.bytes.drop n
        cgiOutput := s.cgiOutput ++ s.stdoutPipe.bytes.take n }.select cgi)
  | kills (hstage : (∃ left, s.stage = .selecting left) ∨ s.stage = .reading) :
      ParentMove cgi s s.kill
  | reachesEnd (hstage : s.stage = .reading) (hclosed : s.stdoutPipe.childOpen = false) :
      ParentMove cgi s { s with stage := .waiting .endOfOutput }
  | returns {reason : WaitReason} (hstage : s.stage = .waiting reason)
      (status : Option WaitStatus) : ParentMove cgi s (s.returns status reason)

theorem move_of_goStep (h : s.goStep cgi = some s') : ParentMove cgi s s' := by
  unfold goStep at h
  split at h
  case h_1 bytesWritten inCall hstage =>
    split_ifs at h with htotal hopen
    · cases h
      exact .closesInput (htotal ▸ hstage)
    · cases h
      rw [Bool.not_eq_true] at hopen
      unfold brokenPipe
      split_ifs with hdefault hpartial
      · exact .isTerminated hstage htotal hdefault
      · exact .writeReturns hstage htotal
      · exact .writeFails hstage htotal hopen (by simpa using hdefault)
  case h_2 hstage =>
    cases h
    exact .selects (.inl hstage)
  case h_3 left hstage =>
    split_ifs at h with hready htime
    · cases h
      exact .isReady hstage hready
    · cases h
      exact .kills (.inl ⟨left, hstage⟩)
  case h_4 hstage =>
    split_ifs at h with hend
    cases h
    exact .reachesEnd hstage hend.2
  case h_5 reason hstage =>
    split_ifs at h
    cases h
    exact .returns hstage _
  all_goals cases h

theorem move_of_interruptStep (h : s.interruptStep cgi = some s') : ParentMove cgi s s' := by
  unfold interruptStep at h
  split at h
  case h_1 bytesWritten inCall hstage =>
    split_ifs at h with htotal
    cases h
    exact .writeReturns hstage htotal
  case h_2 left hstage =>
    cases h
    exact .selects (.inr (.inl ⟨left, hstage⟩))
  case h_3 hstage =>
    cases h
    exact .selects (.inr (.inr hstage))
  case h_4 reason hstage =>
    cases h
    exact .returns hstage _
  case h_5 => cases h

theorem move_of_parentStep {act : ParentAct} (h : s.parentStep cgi act = some s') :
    ParentMove cgi s s' := by
  unfold parentStep at h
  split at h
  case h_1 n bytesWritten inCall hstage =>
    split_ifs at h with hput
    cases h
    exact .puts hstage hput.1 hput.2
  case h_2 n hstage =>
    split_ifs at h with htake
    cases h
    exact .reads hstage ⟨htake.1, htake.2.2⟩
  case h_3 left hstage =>
    cases h
    exact .ticks hstage
  case h_4 left hstage =>
    cases h
    exact .kills (.inl ⟨left, hstage⟩)
  case h_5 hstage =>
    cases h
    exact .kills (.inr hstage)
  case h_6 => exact move_of_goStep h
  case h_7 => exact move_of_interruptStep h
  case h_8 => cases h

/-- The child leaves the parent where it is. -/
theorem childStep_same {act : ChildAct} (h : s.childStep cgi act = some s') :
    s'.stage = s.stage ∧ s'.cgiOutput = s.cgiOutput := by
  unfold childStep at h
  split_ifs at h
  cases act with
  | readInput n =>
      dsimp only at h
      split_ifs at h
      cases h
      exact ⟨rfl, rfl⟩
  | writeOutput data =>
      dsimp only at h
      split_ifs at h
      cases h
      exact ⟨rfl, rfl⟩
  | closeInput =>
      cases h
      exact ⟨rfl, rfl⟩
  | closeOutput =>
      cases h
      exact ⟨rfl, rfl⟩
  | exit status =>
      cases h
      exact ⟨rfl, rfl⟩

theorem terminated_stays {label : CgiLabel} (hstage : s.stage = .terminated)
    (h : s.step cgi label = some s') : s'.stage = .terminated := by
  cases label with
  | child act => exact (childStep_same h).1.trans hstage
  | parent act =>
      cases act <;> simp [step, parentStep, goStep, interruptStep, hstage] at h

/-! ## What holds in every state -/

def StageSound (cgi : CgiSetting) (s : CgiRun) : Prop :=
  match s.stage with
  | .writing bytesWritten inCall =>
      bytesWritten + inCall < cgi.total ∨ bytesWritten = cgi.total ∧ inCall = 0
  | .reading => s.Ready
  | .waiting .childKilled => s.status ≠ none
  | _ => True

structure Sound (cgi : CgiSetting) (s : CgiRun) : Prop where
  ended : s.status ≠ none → s.stdinPipe.childOpen = false ∧ s.stdoutPipe.childOpen = false
  stdinFits : s.stdinPipe.bytes.length ≤ cgi.capacity
  stage : s.StageSound cgi

theorem sound_start : Sound cgi (start cgi) where
  ended hstatus := absurd rfl hstatus
  stdinFits := Nat.zero_le _
  stage := by
    by_cases hpost : cgi.request.methodStr = ascii "POST"
    · have hstage : (start cgi).stage = .writing 0 0 := if_pos hpost
      simp only [StageSound, hstage, and_true, Nat.add_zero]
      exact (Nat.eq_zero_or_pos cgi.total).symm.imp_right Eq.symm
    · have hstage : (start cgi).stage = .closingInput := if_neg hpost
      simp only [StageSound, hstage]

theorem StageSound.of_same (h : s.StageSound cgi) (hstage : s'.stage = s.stage)
    (hready : s.Ready → s'.Ready) (hstatus : s'.status = none → s.status = none) :
    s'.StageSound cgi := by
  unfold StageSound at h ⊢
  rw [hstage]
  split at h
  case h_1 => exact h
  case h_2 => exact hready h
  case h_3 => exact fun hnone => h (hstatus hnone)
  case h_4 => trivial

theorem Sound.childStep {act : ChildAct} (h : s.Sound cgi)
    (hstep : s.childStep cgi act = some s') : s'.Sound cgi := by
  unfold CgiRun.childStep at hstep
  split_ifs at hstep with hstatus
  rw [not_not] at hstatus
  cases act with
  | readInput n =>
      dsimp only at hstep
      split_ifs at hstep
      cases hstep
      exact ⟨h.ended, (by simp : _ ≤ _).trans h.stdinFits, h.stage.of_same rfl id id⟩
  | writeOutput data =>
      dsimp only at hstep
      split_ifs at hstep
      cases hstep
      refine ⟨h.ended, h.stdinFits, h.stage.of_same rfl (fun hready => ?_) id⟩
      exact hready.imp_left fun hne => List.append_ne_nil_of_left_ne_nil hne _
  | closeInput =>
      cases hstep
      exact ⟨fun hended => absurd hstatus hended, h.stdinFits, h.stage.of_same rfl id id⟩
  | closeOutput =>
      cases hstep
      exact ⟨fun hended => absurd hstatus hended, h.stdinFits,
        h.stage.of_same rfl (fun _ => .inr rfl) id⟩
  | exit status =>
      cases hstep
      exact ⟨fun _ => ⟨rfl, rfl⟩, h.stdinFits, h.stage.of_same rfl (fun _ => .inr rfl) nofun⟩

theorem Sound.kill (h : s.Sound cgi) : s.kill.Sound cgi := by
  unfold CgiRun.kill
  by_cases hstatus : s.status = none
  · rw [if_pos hstatus]
    exact ⟨fun _ => ⟨rfl, rfl⟩, h.stdinFits, nofun⟩
  · rw [if_neg hstatus]
    exact ⟨h.ended, h.stdinFits, hstatus⟩

theorem Sound.move (h : s.Sound cgi) (hmove : ParentMove cgi s s') : s'.Sound cgi := by
  cases hmove with
  | @puts bytesWritten inCall n hstage hopen hput =>
      obtain ⟨hpos, hrest, hfits, -⟩ := hput
      refine ⟨h.ended, ?_, ?_⟩
      · simp only [put, List.length_append, List.length_take]
        omega
      · unfold StageSound put
        split_ifs with hall
        · exact .inr ⟨rfl, rfl⟩
        · left
          omega
  | @writeReturns bytesWritten inCall hstage hleft =>
      have hsound := h.stage
      simp only [StageSound, hstage] at hsound
      refine ⟨h.ended, h.stdinFits, .inl ?_⟩
      omega
  | isReady hstage hready => exact ⟨h.ended, h.stdinFits, hready⟩
  | kills => exact h.kill
  | closesInput hstage => exact ⟨h.ended, h.stdinFits, trivial⟩
  | isTerminated hstage => exact ⟨h.ended, h.stdinFits, trivial⟩
  | writeFails hstage => exact ⟨h.ended, h.stdinFits, trivial⟩
  | selects hstage => exact ⟨h.ended, h.stdinFits, trivial⟩
  | ticks hstage => exact ⟨h.ended, h.stdinFits, trivial⟩
  | reads hstage => exact ⟨h.ended, h.stdinFits, trivial⟩
  | reachesEnd hstage hclosed => exact ⟨h.ended, h.stdinFits, trivial⟩
  | returns hstage status => exact ⟨h.ended, h.stdinFits, trivial⟩

theorem sound_of_reached (h : (cgiProcesses cgi).Reached s) : s.Sound cgi := by
  apply h.invariant (fun _ hinit => hinit ▸ sound_start)
  intro _ label _ hsound _ hstep
  cases label with
  | child act => exact hsound.childStep hstep
  | parent act => exact hsound.move (move_of_parentStep hstep)

/-! ## When the parent gets through -/

/-- The parent does not need the child any more, except for its end. -/
def Limited (cgi : CgiSetting) (s : CgiRun) : Prop :=
  s.status ≠ none ∨
    match s.stage with
    | .writing bytesWritten inCall =>
        if bytesWritten ≠ cgi.total ∧ s.stdinPipe.childOpen = false then
          cgi.sigpipeIgnored = false
        else
          s.stdinPipe.bytes.length + (cgi.total - (bytesWritten + inCall)) ≤ cgi.capacity ∧
            s.stdoutPipe.childOpen = true
    | .closingInput => s.stdoutPipe.childOpen = true
    | .selecting _ => s.stdoutPipe.childOpen = true
    | .reading => s.stdoutPipe.childOpen = true
    | .waiting _ => False
    | .returned _ => True
    | .terminated => True

theorem Limited.move (h : s.Limited cgi) (hsound : s.Sound cgi)
    (hmove : ParentMove cgi s s') : s'.Limited cgi := by
  rcases h with hended | hlimited
  · left
    cases hmove with
    | kills =>
        unfold CgiRun.kill
        simp only [if_neg hended]
        exact hended
    | _ => exact hended
  cases hmove with
  | @puts bytesWritten inCall n hstage hopen hput =>
      right
      obtain ⟨hpos, hrest, hfits, -⟩ := hput
      simp only [hstage, hopen, Bool.true_eq_false, and_false, if_false] at hlimited
      have hdata : ((cgi.request.buffer.drop (bytesWritten + inCall)).take n).length = n := by
        rw [List.length_take, List.length_drop]
        exact min_eq_left hrest
      unfold put
      split_ifs with hall
      · simp only [hopen, Bool.true_eq_false, and_false, if_false, List.length_append, hdata]
        exact ⟨by omega, hlimited.2⟩
      · simp only [hopen, Bool.true_eq_false, and_false, if_false, List.length_append, hdata]
        exact ⟨by omega, hlimited.2⟩
  | @writeReturns bytesWritten inCall hstage hleft =>
      right
      have hstageSound := hsound.stage
      simp only [StageSound, hstage, hleft, false_and, or_false] at hstageSound
      simp only [hstage, hleft, ne_eq, not_false_eq_true, true_and] at hlimited
      simp only [CgiRun.writeReturns, hstageSound.ne, ne_eq, not_false_eq_true, true_and,
        Nat.add_zero]
      exact hlimited
  | closesInput hstage =>
      simp only [hstage, ne_eq, not_true_eq_false, false_and, if_false] at hlimited
      exact .inr hlimited.2
  | isTerminated hstage => exact .inr trivial
  | writeFails hstage hleft hclosed hignored =>
      simp [hstage, hleft, hclosed, hignored] at hlimited
  | selects hstage =>
      have hopen : s.stdoutPipe.childOpen = true := by
        rcases hstage with hstage | ⟨left, hstage⟩ | hstage <;> simpa only [hstage] using hlimited
      exact .inr hopen
  | ticks hstage => exact .inr (by simpa only [hstage] using hlimited)
  | isReady hstage hready => exact .inr (by simpa only [hstage] using hlimited)
  | reads hstage =>
      have hopen : s.stdoutPipe.childOpen = true := by simpa only [hstage] using hlimited
      exact .inr hopen
  | kills =>
      left
      unfold CgiRun.kill
      split_ifs with hstatus
      · exact nofun
      · exact hstatus
  | reachesEnd hstage hclosed => simp [hstage, hclosed] at hlimited
  | returns hstage status => exact .inr trivial

theorem parentStep_put {bytesWritten inCall n : Nat}
    (hstage : s.stage = .writing bytesWritten inCall) (hopen : s.stdinPipe.childOpen = true)
    (hput : s.MayPut cgi bytesWritten inCall n) :
    s.parentStep cgi (.put n) = some (s.put cgi bytesWritten inCall n) := by
  simp only [parentStep, hstage]
  exact if_pos ⟨hopen, hput⟩

theorem Limited.not_blocked (h : s.Limited cgi) (hsound : s.Sound cgi) : ¬ s.Blocked cgi := by
  rintro ⟨huntimed, hstuck⟩
  have hgo {t : CgiRun} (hstep : s.goStep cgi = some t) : False := by
    rcases hstuck .go t hstep with hact | hact <;> cases hact
  unfold InUntimedCall at huntimed
  split at huntimed
  case h_1 bytesWritten inCall hstage =>
    cases hopen : s.stdinPipe.childOpen with
    | false => exact hgo (by simp only [goStep, hstage, hopen, if_neg huntimed]; rfl)
    | true =>
        have hrunning : s.status = none := by
          by_contra hended
          exact Bool.false_ne_true ((hsound.ended hended).1.symm.trans hopen)
        have hstageSound := hsound.stage
        simp only [StageSound, hstage, huntimed, false_and, or_false] at hstageSound
        simp only [Limited, hrunning, hstage, hopen, ne_eq, not_true_eq_false, false_or,
          Bool.true_eq_false, and_false, if_false] at h
        have hput : s.MayPut cgi bytesWritten inCall (cgi.total - (bytesWritten + inCall)) :=
          ⟨by omega, le_rfl, h.1, fun _ => rfl⟩
        rcases hstuck _ _ (parentStep_put hstage hopen hput) with hact | hact <;> cases hact
  case h_2 hstage =>
    have hready := hsound.stage
    simp only [StageSound, hstage] at hready
    by_cases hempty : s.stdoutPipe.bytes = []
    · have hclosed := hready.resolve_left (not_not.2 hempty)
      exact hgo (by simp only [goStep, hstage]; exact if_pos ⟨hempty, hclosed⟩)
    · have htake : 0 < 1 ∧ 1 ≤ 4096 ∧ 1 ≤ s.stdoutPipe.bytes.length :=
        ⟨by decide, by decide, List.length_pos_iff.2 hempty⟩
      rcases hstuck (.take 1) _ (by simp only [parentStep, hstage]; exact if_pos htake)
        with hact | hact <;> cases hact
  case h_3 reason hstage =>
    have hended : s.status ≠ none := by simpa only [Limited, hstage, or_false] using h
    exact hgo (by simp only [goStep, hstage]; exact if_neg hended)
  case h_4 => exact huntimed

/-! ## When it does not -/

/-- The parent can come to a call that does not return. -/
def Strands (cgi : CgiSetting) (s : CgiRun) : Prop := ∃ t, s.Alone cgi t ∧ t.Blocked cgi

variable {t : CgiRun}

theorem Alone.parent (h : s.Alone cgi t) {u : CgiRun} (act : ParentAct)
    (hstep : t.parentStep cgi act = some u) : s.Alone cgi u :=
  .step h ⟨act, rfl⟩ hstep

theorem Alone.go (h : s.Alone cgi t) {u : CgiRun} (hstep : t.goStep cgi = some u) :
    s.Alone cgi u :=
  h.parent .go hstep

theorem blocked_of_waiting {reason : WaitReason} (hstage : t.stage = .waiting reason)
    (hstatus : t.status = none) : t.Blocked cgi := by
  refine ⟨by simp only [InUntimedCall, hstage], fun act u hstep => ?_⟩
  cases act with
  | go => simp [parentStep, goStep, hstage, hstatus] at hstep
  | interrupt => exact .inl rfl
  | fail => exact .inr rfl
  | _ => simp [parentStep, hstage] at hstep

/-- The parent reads what is left, comes to the end and waits for the child to exit. -/
theorem strands_of_reading (h : s.Alone cgi t) (hstage : t.stage = .reading)
    (hclosed : t.stdoutPipe.childOpen = false) (hstatus : t.status = none) : Strands cgi s := by
  induction hbytes : t.stdoutPipe.bytes generalizing t with
  | nil =>
      have hend := h.go (u := { t with stage := .waiting .endOfOutput })
        (by simp only [goStep, hstage]; exact if_pos ⟨hbytes, hclosed⟩)
      exact ⟨_, hend, blocked_of_waiting rfl hstatus⟩
  | cons first rest ih =>
      have htake : t.parentStep cgi (.take 1) = some ({ t with
          stdoutPipe.bytes := t.stdoutPipe.bytes.drop 1
          cgiOutput := t.cgiOutput ++ t.stdoutPipe.bytes.take 1 }.select cgi) := by
        simp only [parentStep, hstage]
        exact if_pos ⟨by decide, by decide, by simp [hbytes]⟩
      exact ih ((h.parent _ htake).go (if_pos (.inr hclosed))) rfl hclosed hstatus
        (congrArg (List.drop 1) hbytes)

theorem strands_of_selecting (h : s.Alone cgi t) {left : Nat} (hstage : t.stage = .selecting left)
    (hclosed : t.stdoutPipe.childOpen = false) (hstatus : t.status = none) : Strands cgi s := by
  have hready := h.go (u := { t with stage := .reading })
    (by simp only [goStep, hstage]; exact if_pos (.inr hclosed))
  exact strands_of_reading hready rfl hclosed hstatus

theorem strands_of_closingInput (h : s.Alone cgi t) (hstage : t.stage = .closingInput)
    (hclosed : t.stdoutPipe.childOpen = false) (hstatus : t.status = none) : Strands cgi s := by
  have hselect := h.go (u := t.select cgi) (by simp only [goStep, hstage])
  exact strands_of_selecting hselect rfl hclosed hstatus

theorem strands_of_written (h : s.Alone cgi t) {inCall : Nat}
    (hstage : t.stage = .writing cgi.total inCall)
    (hclosed : t.stdoutPipe.childOpen = false) (hstatus : t.status = none) : Strands cgi s := by
  have hclose := h.go (u := { t with stage := .closingInput })
    (by simp only [goStep, hstage, if_true])
  exact strands_of_closingInput hclose rfl hclosed hstatus

/-- `EPIPE`, while the child is still there. -/
theorem strands_of_brokenPipe {t : CgiRun} (h : s.Alone cgi t) {bytesWritten inCall : Nat}
    (hstage : t.stage = .writing bytesWritten inCall)
    (hleft : bytesWritten + inCall < cgi.total) (hclosed : t.stdinPipe.childOpen = false)
    (hignored : cgi.sigpipeIgnored = true) (hstatus : t.status = none) : Strands cgi s := by
  have hbroken := h.go (u := t.brokenPipe cgi bytesWritten inCall) (by
    simp only [goStep, hstage, if_neg (by omega : ¬ bytesWritten = cgi.total), hclosed]
    rfl)
  unfold brokenPipe at hbroken
  rw [if_neg (by simp [hignored])] at hbroken
  split_ifs at hbroken with hpartial
  · exact strands_of_brokenPipe hbroken rfl hleft hclosed hignored hstatus
  · exact ⟨_, hbroken, blocked_of_waiting rfl hstatus⟩
termination_by inCall

theorem blocked_of_writing {bytesWritten inCall : Nat}
    (hstage : t.stage = .writing bytesWritten inCall) (hleft : bytesWritten ≠ cgi.total)
    (hopen : t.stdinPipe.childOpen = true)
    (hfull : ∀ n, ¬ t.MayPut cgi bytesWritten inCall n) : t.Blocked cgi := by
  refine ⟨by simpa only [InUntimedCall, hstage], fun act u hstep => ?_⟩
  cases act with
  | put n => simp [parentStep, hstage, hfull n] at hstep
  | go => simp [parentStep, goStep, hstage, hleft, hopen] at hstep
  | interrupt => exact .inl rfl
  | fail => exact .inr rfl
  | _ => simp [parentStep, hstage] at hstep

theorem strands_of_overflow (h : s.Alone cgi t) (hsound : t.Sound cgi) {bytesWritten inCall : Nat}
    (hstage : t.stage = .writing bytesWritten inCall) (hleft : bytesWritten ≠ cgi.total)
    (hopen : t.stdinPipe.childOpen = true)
    (hover : cgi.capacity <
      t.stdinPipe.bytes.length + (cgi.total - (bytesWritten + inCall))) : Strands cgi s := by
  have hfits := hsound.stdinFits
  by_cases hput : t.MayPut cgi bytesWritten inCall (cgi.capacity - t.stdinPipe.bytes.length)
  · have hfill := h.parent _ (parentStep_put hstage hopen hput)
    obtain ⟨hpos, hrest, -, -⟩ := hput
    have hdata : ((cgi.request.buffer.drop (bytesWritten + inCall)).take
        (cgi.capacity - t.stdinPipe.bytes.length)).length =
        cgi.capacity - t.stdinPipe.bytes.length := by
      rw [List.length_take, List.length_drop]
      exact min_eq_left hrest
    refine ⟨_, hfill, blocked_of_writing (if_neg ?_) hleft hopen fun n hmay => ?_⟩
    · omega
    · obtain ⟨hn, -, hroom, -⟩ := hmay
      simp only [put, List.length_append, hdata] at hroom
      omega
  · refine ⟨t, h, blocked_of_writing hstage hleft hopen fun n hmay => hput ?_⟩
    obtain ⟨hn, hrest, hroom, hwhole⟩ := hmay
    refine ⟨by omega, by omega, by omega, fun hsmall => ?_⟩
    have hall := hwhole hsmall
    omega

/-- The rest of the body fits, but there is no output to come. -/
theorem strands_of_closedOutput (h : s.Alone cgi t) {bytesWritten inCall : Nat}
    (hstage : t.stage = .writing bytesWritten inCall) (hleft : bytesWritten + inCall < cgi.total)
    (hopen : t.stdinPipe.childOpen = true)
    (hfits : t.stdinPipe.bytes.length + (cgi.total - (bytesWritten + inCall)) ≤ cgi.capacity)
    (hclosed : t.stdoutPipe.childOpen = false) (hstatus : t.status = none) : Strands cgi s := by
  have hput : t.MayPut cgi bytesWritten inCall (cgi.total - (bytesWritten + inCall)) :=
    ⟨by omega, le_rfl, hfits, fun _ => rfl⟩
  have hrest := h.parent _ (parentStep_put hstage hopen hput)
  exact strands_of_written hrest (if_pos (by omega)) hclosed hstatus

theorem strands_of_not_limited (hsound : s.Sound cgi) (h : ¬ s.Limited cgi) : Strands cgi s := by
  simp only [Limited, not_or, not_not] at h
  obtain ⟨hstatus, hlimited⟩ := h
  have hhere : s.Alone cgi s := .init rfl
  split at hlimited
  case h_1 bytesWritten inCall hstage =>
    have hstageSound := hsound.stage
    simp only [StageSound, hstage] at hstageSound
    split_ifs at hlimited with hbroken
    · exact strands_of_brokenPipe hhere hstage (by omega) hbroken.2 (by simpa using hlimited)
        hstatus
    · rw [not_and_or, not_le, Bool.not_eq_true] at hlimited
      by_cases htotal : bytesWritten = cgi.total
      · have hfits := hsound.stdinFits
        have hclosed := hlimited.resolve_left (by omega)
        exact strands_of_written hhere (htotal ▸ hstage) hclosed hstatus
      · have hopen : s.stdinPipe.childOpen = true := by simpa [htotal] using hbroken
        rcases Nat.lt_or_ge cgi.capacity
          (s.stdinPipe.bytes.length + (cgi.total - (bytesWritten + inCall))) with hover | hfits
        · exact strands_of_overflow hhere hsound hstage htotal hopen hover
        · exact strands_of_closedOutput hhere hstage (by omega) hopen hfits
            (hlimited.resolve_left (by omega)) hstatus
  case h_2 hstage => exact strands_of_closingInput hhere hstage (by simpa using hlimited) hstatus
  case h_3 left hstage =>
    exact strands_of_selecting hhere hstage (by simpa using hlimited) hstatus
  case h_4 hstage => exact strands_of_reading hhere hstage (by simpa using hlimited) hstatus
  case h_5 reason hstage => exact ⟨s, hhere, blocked_of_waiting hstage hstatus⟩
  case h_6 => exact absurd trivial hlimited
  case h_7 => exact absurd trivial hlimited

theorem limited_of_alone (hsound : s.Sound cgi) (hlimited : s.Limited cgi)
    (h : s.Alone cgi t) : t.Sound cgi ∧ t.Limited cgi := by
  induction h with
  | init hinit =>
      cases hinit
      exact ⟨hsound, hlimited⟩
  | @step u u' label _ hparent hstep ih =>
      obtain ⟨act, rfl⟩ := hparent
      have hmove : ParentMove cgi u u' := move_of_parentStep hstep
      exact ⟨ih.1.move hmove, ih.2.move ih.1 hmove⟩

/-- If the child takes no further step, the parent comes into no call without a limit that does
not return, exactly when it does not need the child any more. -/
theorem runCgi_waits_with_limit_iff (hreached : (cgiProcesses cgi).Reached s) :
    (∀ t, s.Alone cgi t → ¬ t.Blocked cgi) ↔ s.Limited cgi := by
  have hsound := sound_of_reached hreached
  constructor
  · intro hnever
    by_contra hlimited
    obtain ⟨t, halone, hblocked⟩ := strands_of_not_limited hsound hlimited
    exact hnever t halone hblocked
  · intro hlimited t halone
    obtain ⟨htsound, htlimited⟩ := limited_of_alone hsound hlimited halone
    exact htlimited.not_blocked htsound

/-! ## Runs in which both processes stop -/

theorem runCgi_waits_with_limit_iff_post :
    let cgi : CgiSetting := { request := { methodStr := ascii "POST", buffer := ascii "a=1" } }
    (start cgi).Limited cgi ∧ ∀ t, (start cgi).Alone cgi t → ¬ t.Blocked cgi := by
  intro cgi
  have hlimited : (start cgi).Limited cgi := .inr ⟨by decide, rfl⟩
  exact ⟨hlimited, (runCgi_waits_with_limit_iff (.init rfl)).2 hlimited⟩

/-- Parent and child each wait for the other to read. -/
def Deadlocked (cgi : CgiSetting) (s : CgiRun) : Prop :=
  s.Blocked cgi ∧ s.status = none ∧ ∀ data ≠ [], s.childStep cgi (.writeOutput data) = none

theorem childStep_writeOutput (cgi : CgiSetting) (hstatus : s.status = none) (data : Bytes) :
    s.childStep cgi (.writeOutput data) =
      if s.stdoutPipe.childOpen = true ∧
          s.stdoutPipe.bytes.length + data.length ≤ cgi.capacity then
        some { s with stdoutPipe.bytes := s.stdoutPipe.bytes ++ data }
      else none :=
  if_neg (not_not.2 hstatus)

/-- The child fills its output before it reads the first byte of the body. -/
theorem deadlocked_of_long_body (hpost : cgi.request.methodStr = ascii "POST")
    (hbody : cgi.capacity < cgi.total) :
    ∃ s, (cgiProcesses cgi).Reached s ∧ s.Deadlocked cgi := by
  have hsmall := cgi.pipeBuf_le
  have hpos := cgi.pipeBuf_pos
  have hstage : (start cgi).stage = .writing 0 0 := if_pos hpost
  have hput : (start cgi).MayPut cgi 0 0 cgi.capacity :=
    ⟨by omega, by omega, by simp [start], fun hle => by omega⟩
  have hparent : (cgiProcesses cgi).Reached ((start cgi).put cgi 0 0 cgi.capacity) :=
    .step (l := .parent (.put cgi.capacity)) (.init rfl) trivial (parentStep_put hstage rfl hput)
  have hinput : ((start cgi).put cgi 0 0 cgi.capacity).stdinPipe.bytes.length = cgi.capacity :=
    List.length_take_of_le hbody.le
  have hwrite := childStep_writeOutput cgi
    (rfl : ((start cgi).put cgi 0 0 cgi.capacity).status = none) (List.replicate cgi.capacity 0)
  rw [if_pos ⟨rfl, by simp [put, start]⟩] at hwrite
  have hchild : (cgiProcesses cgi).Reached _ :=
    .step (l := .child (.writeOutput (List.replicate cgi.capacity 0))) hparent trivial hwrite
  refine ⟨_, hchild, blocked_of_writing (if_neg ?_) ?_ rfl ?_, rfl, ?_⟩
  · omega
  · omega
  · rintro n ⟨hn, -, hroom, -⟩
    simp only [hinput] at hroom
    omega
  · intro data hdata
    have hlength := List.length_pos_iff.2 hdata
    rw [childStep_writeOutput cgi rfl, if_neg]
    rintro ⟨-, hfits⟩
    simp only [List.length_append, List.length_replicate] at hfits
    omega

def longPost : CgiSetting :=
  { request := { methodStr := ascii "POST", buffer := List.replicate 65537 0 } }

/-- A program that closes its output and sleeps, and one that writes before it reads. -/
theorem runCgi_waits_without_limit :
    (∃ s, (cgiProcesses {}).Reached s ∧ s.stage = .waiting .endOfOutput ∧ s.status = none ∧
        s.Blocked {}) ∧
      ∃ s, (cgiProcesses longPost).Reached s ∧ s.Deadlocked longPost := by
  constructor
  · let labels : List CgiLabel := [.parent .go, .child .closeOutput, .parent .go, .parent .go]
    have hrun := (Machine.Run.init (M := cgiProcesses {}) (s := start {}) rfl).record labels
      (r := Option.get ((cgiProcesses {}).record [] (start {}) labels) rfl) rfl
    exact ⟨_, hrun.reached, rfl, rfl, blocked_of_waiting rfl rfl⟩
  · have hbody : longPost.total = 65537 := List.length_replicate
    exact deadlocked_of_long_body rfl (hbody ▸ by decide)

end CgiRun

end CppHttpd
