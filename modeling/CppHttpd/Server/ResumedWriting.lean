import CppHttpd.Foundation.Transition
import CppHttpd.Server.EventLoopWorker
import CppHttpd.Server.TlsAgreement

/-!
# Responses that are written in pieces

The socket may be full behind any byte of a response.  `process_writable` then
returns, and the next call goes on from the offsets and sizes that this one left
in the `ConnState`.
-/

namespace CppHttpd

open CppHttpd.Foundation

/-! ## What a call puts on the socket -/

def writePendingSends (state : ConnState) (write : SendResult) : Bytes :=
  if state.writeBuf.length - state.writeOffset > 0 then
    match write with
    | .again => []
    | .failed => []
    | .sent n _ => (state.writeBuf.drop state.writeOffset).take n
  else []

def sendBodySends (file : OpenFile) (state : ConnState) : List SendResult → Bytes
  | [] => []
  | result :: results =>
      if state.sendfileSize > 0 then
        match result with
        | .again => []
        | .failed => []
        | .sent n _ =>
            file.slice state.sendfileOffset n ++ sendBodySends file (state.bodySent n) results
      else []

def processWritableSends (files : Fd → OpenFile) (state : ConnState) (write : SendResult)
    (sendfiles : List SendResult) : Bytes :=
  writePendingSends state write ++
    match writePending state write with
    | .error _ => []
    | .ok state => state.sendfileFd.elim [] fun fd => sendBodySends (files fd) state sendfiles

/-! ## What is still to be sent -/

namespace ConnState

def toWrite (state : ConnState) : Bytes := state.writeBuf.drop state.writeOffset

def bodyToSend (files : Fd → OpenFile) (state : ConnState) : Bytes :=
  state.sendfileFd.elim [] fun fd =>
    (files fd).slice state.sendfileOffset state.sendfileSize.toNat

def toSend (files : Fd → OpenFile) (state : ConnState) : Bytes :=
  state.toWrite ++ state.bodyToSend files

/-- The body that is left lies within the file. -/
def BodyWithin (file : OpenFile) (state : ConnState) : Prop :=
  0 ≤ state.sendfileOffset ∧ 0 ≤ state.sendfileSize ∧
    state.sendfileOffset + state.sendfileSize ≤ file.content.length

end ConnState

theorem OpenFile.slice_append (file : OpenFile) {offset size : Int} {n : Nat}
    (hoffset : 0 ≤ offset) (hn : (n : Int) ≤ size) :
    file.slice offset n ++ file.slice (offset + n) (size - n).toNat =
      file.slice offset size.toNat := by
  have hdrop : (offset + n).toNat = offset.toNat + n := by omega
  have hsize : size.toNat = n + (size - n).toNat := by omega
  rw [slice, slice, slice, hdrop, hsize, ← List.drop_drop]
  exact (List.take_add ..).symm

theorem ConnState.BodyWithin.slice_ne_nil {file : OpenFile} {state : ConnState}
    (h : state.BodyWithin file) (hsize : 0 < state.sendfileSize) :
    file.slice state.sendfileOffset state.sendfileSize.toNat ≠ [] := by
  obtain ⟨hoffset, -, hstop⟩ := h
  intro hnil
  have hlength := congrArg List.length hnil
  simp only [OpenFile.slice, List.length_take, List.length_drop, List.length_nil] at hlength
  omega

/-! ## Each part of a call -/

/-- The buffer up to some byte, or all of it. -/
inductive PendingSends (state : ConnState) (sent : Bytes) :
    Except (Bool × ConnState) ConnState → Prop
  | waits {n : Nat} (hn : n < state.writeBuf.length)
      (hsent : sent ++ state.writeBuf.drop n = state.toWrite) :
      PendingSends state sent (.error (false, { state with writeOffset := n }))
  | written {state' : ConnState} (hsent : sent = state.toWrite)
      (hstate : state' = { state with writeOffset := state.writeBuf.length }) :
      PendingSends state sent (.ok state')

theorem writePending_sends {state : ConnState} (hoffset : state.writeOffset ≤ state.writeBuf.length)
    {write : SendResult} (hwithin : write.Within (state.writeBuf.length - state.writeOffset))
    (hok : write ≠ .failed) :
    PendingSends state (writePendingSends state write) (writePending state write) := by
  unfold writePending writePendingSends
  split_ifs with hpending
  · cases write with
    | failed => exact absurd rfl hok
    | again => exact .waits (by omega) rfl
    | sent n positive =>
        have hle : n ≤ state.writeBuf.length - state.writeOffset := hwithin
        dsimp only
        split_ifs with hmore
        · apply PendingSends.waits hmore
          rw [← List.drop_drop]
          exact List.take_append_drop n _
        · have hall : state.writeOffset + n = state.writeBuf.length := by omega
          refine .written ?_ (by rw [hall])
          exact List.take_of_length_le (by rw [List.length_drop]; omega)
  · have hall : state.writeOffset = state.writeBuf.length := by omega
    refine .written ?_ (by rw [← hall])
    rw [ConnState.toWrite, hall, List.drop_length]

/-- The body up to some byte, or all of it. -/
inductive BodySends (file : OpenFile) (state : ConnState) (sent : Bytes) :
    Except (Bool × ConnState) ConnState → Prop
  | waits {state' : ConnState} {offset size : Int}
      (hstate : state' = { state with sendfileOffset := offset, sendfileSize := size })
      (hsize : 0 < size) (hwithin : state'.BodyWithin file)
      (hsent : sent ++ file.slice offset size.toNat =
        file.slice state.sendfileOffset state.sendfileSize.toNat) :
      BodySends file state sent (.error (false, state'))
  | sent {state' : ConnState} (hclose : state'.closeAfterWrite = state.closeAfterWrite)
      (hsent : sent = file.slice state.sendfileOffset state.sendfileSize.toNat) :
      BodySends file state sent (.ok state')

theorem BodySends.after {file : OpenFile} {state : ConnState} (hwithin : state.BodyWithin file)
    {n : Nat} (hn : n ≤ state.sendfileSize) {sent : Bytes}
    {r : Except (Bool × ConnState) ConnState} (h : BodySends file (state.bodySent n) sent r) :
    BodySends file state (file.slice state.sendfileOffset n ++ sent) r := by
  have hslice := file.slice_append hwithin.1 hn
  cases h with
  | waits hstate hsize hwithin' hsent =>
      refine .waits hstate hsize hwithin' ?_
      rw [List.append_assoc, hsent]
      exact hslice
  | sent hclose hsent =>
      refine .sent hclose ?_
      rw [hsent]
      exact hslice

theorem sendBody_sends (file : OpenFile) {results : List SendResult} {state : ConnState}
    (hwithin : state.BodyWithin file) (hresults : SendfilesWithin state.sendfileSize results)
    (hok : .failed ∉ results) :
    BodySends file state (sendBodySends file state results) (sendBody state results) := by
  induction results generalizing state with
  | nil =>
      unfold sendBody sendBodySends
      split_ifs with hsize
      · exact .waits rfl hsize hwithin (List.nil_append _)
      · have hzero : state.sendfileSize.toNat = 0 := by omega
        exact .sent rfl (by rw [hzero, OpenFile.slice, List.take_zero])
  | cons result results ih =>
      unfold sendBody sendBodySends
      split_ifs with hsize
      · rw [List.mem_cons, not_or] at hok
        cases result with
        | failed => exact absurd rfl hok.1
        | again => exact .waits rfl hsize hwithin (List.nil_append _)
        | sent n positive =>
            obtain ⟨hn, hrest⟩ := hresults
            obtain ⟨hoffset, hnonneg, hstop⟩ := hwithin
            have hleft : (state.bodySent n).BodyWithin file := by
              refine ⟨?_, ?_, ?_⟩ <;> simp only [ConnState.bodySent] <;> omega
            exact (ih hleft hrest hok.2).after ⟨hoffset, hnonneg, hstop⟩ hn
      · have hzero : state.sendfileSize.toNat = 0 := by omega
        exact .sent rfl (by rw [hzero, OpenFile.slice, List.take_zero])

/-! ## One call -/

/-- What `process_writable` goes on from. -/
structure ConnState.Resumable (files : Fd → OpenFile) (state : ConnState) : Prop where
  writing : state.phase = .writing
  offset : state.writeOffset ≤ state.writeBuf.length
  body : ∀ fd, state.sendfileFd = some fd → state.BodyWithin (files fd)

/-- The call returns with something left to be sent, or the response is finished. -/
inductive CallSends {W : Type*} (files : Fd → OpenFile) (state : ConnState) (sent : Bytes) :
    ConnTurn W → Prop
  | waits {state' : ConnState} {w : W} (hsent : sent ++ state'.toSend files = state.toSend files)
      (hleft : state'.toSend files ≠ []) (hresumable : state'.Resumable files)
      (hclose : state'.closeAfterWrite = state.closeAfterWrite) :
      CallSends files state sent { close := false, state := state', world := w }
  | closes {state' : ConnState} {w : W} (hsent : sent = state.toSend files)
      (hclose : state.closeAfterWrite = true) :
      CallSends files state sent { close := true, state := state', world := w }
  | resets {state' : ConnState} {w : W} (hsent : sent = state.toSend files)
      (hclose : state.closeAfterWrite = false) :
      CallSends files state sent
        { close := false
          state := (resetConnToReading state').1
          world := w
          modify := some (resetConnToReading state').2 }

theorem ConnState.toSend_eq (files : Fd → OpenFile) (state : ConnState) (n : Nat) :
    ({ state with writeOffset := n } : ConnState).toSend files =
      state.writeBuf.drop n ++ state.bodyToSend files := rfl

theorem callSends_finish {W : Type*} {w : W} {files : Fd → OpenFile} {state state' : ConnState}
    {sent : Bytes} (hsent : sent = state.toSend files)
    (hclose : state'.closeAfterWrite = state.closeAfterWrite) :
    CallSends files state sent
      (if state'.closeAfterWrite then { close := true, state := state', world := w }
      else { close := false, state := (resetConnToReading state').1, world := w,
             modify := some (resetConnToReading state').2 }) := by
  split_ifs with hkind
  · exact .closes hsent (hclose ▸ hkind)
  · exact .resets hsent (by simpa [hclose] using hkind)

/-- The buffer is written, and this part of the body is left. -/
def ConnState.sendingBody (state : ConnState) (offset size : Int) : ConnState :=
  { state with
    writeOffset := state.writeBuf.length
    sendfileOffset := offset
    sendfileSize := size }

section

variable {files : Fd → OpenFile} {state : ConnState} {fd : Fd} {offset size : Int}

theorem ConnState.toSend_sendingBody (hfd : state.sendfileFd = some fd) :
    (state.sendingBody offset size).toSend files = (files fd).slice offset size.toNat := by
  simp [sendingBody, toSend, toWrite, bodyToSend, hfd]

theorem ConnState.Resumable.sendingBody (h : state.Resumable files)
    (hfd : state.sendfileFd = some fd)
    (hleft : (state.sendingBody offset size).BodyWithin (files fd)) :
    (state.sendingBody offset size).Resumable files where
  writing := h.writing
  offset := le_refl _
  body fd' hfd' := by
    obtain rfl : fd = fd' := Option.some.inj (hfd.symm.trans hfd')
    exact hleft

end

theorem processWritable_sends {W : Type*} (w : W) {files : Fd → OpenFile} {state : ConnState}
    (h : state.Resumable files) {write : SendResult} {sendfiles : List SendResult}
    (hwrite : write.Within (state.writeBuf.length - state.writeOffset))
    (hsendfiles : SendfilesWithin state.sendfileSize sendfiles)
    (hsucceeds : Succeeds write sendfiles) :
    CallSends files state (processWritableSends files state write sendfiles)
      (processWritable w state write sendfiles) := by
  have hpending := writePending_sends h.offset hwrite hsucceeds.1
  unfold processWritable processWritableSends
  cases hpart : writePending state write with
  | error r =>
      rw [hpart] at hpending
      cases hpending with
      | @waits n hn hsent =>
          refine .waits ?_ ?_ ⟨h.writing, hn.le, h.body⟩ rfl
          · rw [List.append_nil, ConnState.toSend_eq, ← List.append_assoc, hsent]
            rfl
          · rw [ConnState.toSend_eq]
            have hne : state.writeBuf.drop n ≠ [] := by simpa using hn
            simp [hne]
  | ok state₁ =>
      rw [hpart] at hpending
      generalize writePendingSends state write = sent at hpending
      cases hpending with
      | written hsent hstate =>
          have hfd : state₁.sendfileFd = state.sendfileFd := by rw [hstate]
          have hclose : state₁.closeAfterWrite = state.closeAfterWrite := by rw [hstate]
          have hrest : state.toSend files = sent ++ state₁.bodyToSend files := by
            rw [hsent, hstate]
            rfl
          dsimp only [bind, Except.bind]
          cases hsome : state₁.sendfileFd with
          | none =>
              simp only [Option.isSome_none, Bool.false_eq_true, if_false, Option.elim_none]
              apply callSends_finish _ hclose
              rw [hrest, ConnState.bodyToSend, hsome, Option.elim_none]
          | some fd =>
              have hbefore : state.sendfileFd = some fd := hfd.symm.trans hsome
              have hwithin : state₁.BodyWithin (files fd) := by
                rw [hstate]
                exact h.body fd hbefore
              have hsize : state₁.sendfileSize = state.sendfileSize := by rw [hstate]
              have hsends := sendBody_sends (files fd) hwithin (hsize ▸ hsendfiles) hsucceeds.2
              rw [ConnState.bodyToSend, hsome, Option.elim_some] at hrest
              simp only [Option.isSome_some, if_true, Option.elim_some]
              generalize sendBodySends (files fd) state₁ sendfiles = bytes at hsends
              generalize sendBody state₁ sendfiles = result at hsends
              cases hsends with
              | @waits state₂ offset size hstate₂ hsize hleft hbytes =>
                  obtain rfl : state₂ = state.sendingBody offset size := by
                    rw [hstate₂, hstate]
                    rfl
                  refine .waits ?_ ?_ (h.sendingBody hbefore hleft) rfl
                  · rw [ConnState.toSend_sendingBody hbefore, List.append_assoc, hbytes, hrest]
                  · rw [ConnState.toSend_sendingBody hbefore]
                    exact hleft.slice_ne_nil hsize
              | sent hclose₂ hbytes =>
                  apply callSends_finish _ (hclose₂.trans hclose)
                  rw [hrest, hbytes]

/-! ## A run of calls -/

structure WriteCall where
  write : SendResult
  sendfiles : List SendResult

/-- What the kernel can answer while the socket is not broken. -/
structure WriteCall.Possible (state : ConnState) (call : WriteCall) : Prop where
  write : call.write.Within (state.writeBuf.length - state.writeOffset)
  sendfiles : SendfilesWithin state.sendfileSize call.sendfiles
  succeeds : Succeeds call.write call.sendfiles

inductive WriteEnd where
  | closes
  | resets
  deriving DecidableEq

def ConnTurn.writeEnd {W : Type*} (turn : ConnTurn W) : Option WriteEnd :=
  if turn.close then some .closes
  else if turn.state.phase = .reading then some .resets
  else none

structure ResponseWriter where
  state : ConnState
  sent : Bytes := []
  ended : Option WriteEnd := none

namespace ResponseWriter

def call (files : Fd → OpenFile) (s : ResponseWriter) (c : WriteCall) : ResponseWriter :=
  let turn := processWritable () s.state c.write c.sendfiles
  { state := turn.state
    sent := s.sent ++ processWritableSends files s.state c.write c.sendfiles
    ended := turn.writeEnd }

def step (files : Fd → OpenFile) (s : ResponseWriter) (c : WriteCall) : Option ResponseWriter :=
  if s.ended.isSome then none else some (s.call files c)

end ResponseWriter

/-- `process_writable` is called until the response is finished. -/
def responseWriter (files : Fd → OpenFile) (state : ConnState) :
    Machine ResponseWriter WriteCall where
  init s := s = { state := state }
  step := ResponseWriter.step files

namespace ResponseWriter

def ending (closeAfterWrite : Bool) : WriteEnd := if closeAfterWrite then .closes else .resets

/-- What was sent and what is left make up the response. -/
structure Resumes (files : Fd → OpenFile) (whole : Bytes) (closeAfterWrite : Bool)
    (s : ResponseWriter) : Prop where
  remains : s.ended = none → s.sent ++ s.state.toSend files = whole
  resumable : s.ended = none → s.state.Resumable files
  closing : s.ended = none → s.state.closeAfterWrite = closeAfterWrite
  finished : ∀ e, s.ended = some e → s.sent = whole ∧ e = ending closeAfterWrite

variable {files : Fd → OpenFile} {whole : Bytes} {closeAfterWrite : Bool} {s : ResponseWriter}

theorem Resumes.isPrefix (h : Resumes files whole closeAfterWrite s) : s.sent <+: whole := by
  cases hended : s.ended with
  | none => exact ⟨_, h.remains hended⟩
  | some e => exact (h.finished e hended).1 ▸ List.prefix_refl _

/-- Either the response is finished with this call, or something is left of it. -/
theorem Resumes.call (h : Resumes files whole closeAfterWrite s) (hended : s.ended = none)
    {c : WriteCall} (hpossible : c.Possible s.state) :
    Resumes files whole closeAfterWrite (s.call files c) ∧
      ((s.call files c).ended = none → (s.call files c).sent ≠ whole) := by
  have hwhole := h.remains hended
  have hclosing := h.closing hended
  have hsends := processWritable_sends () (h.resumable hended) hpossible.write
    hpossible.sendfiles hpossible.succeeds
  unfold ResponseWriter.call
  generalize processWritableSends files s.state c.write c.sendfiles = bytes at hsends
  generalize processWritable () s.state c.write c.sendfiles = turn at hsends
  cases hsends with
  | waits hsent hleft hresumable hclose =>
      rw [← hsent, ← List.append_assoc] at hwhole
      refine ⟨⟨fun _ => hwhole, fun _ => hresumable, fun _ => hclose.trans hclosing, ?_⟩, ?_⟩
      · simp [ConnTurn.writeEnd, hresumable.writing]
      · intro _ hall
        rw [← hwhole] at hall
        exact hleft (List.self_eq_append_right.1 hall)
  | closes hsent hclose =>
      rw [hclosing] at hclose
      refine ⟨⟨?_, ?_, ?_, ?_⟩, ?_⟩ <;> simp [ConnTurn.writeEnd, hsent, hwhole, ending, hclose]
  | resets hsent hclose =>
      rw [hclosing] at hclose
      refine ⟨⟨?_, ?_, ?_, ?_⟩, ?_⟩ <;>
        simp [ConnTurn.writeEnd, resetConnToReading, hsent, hwhole, ending, hclose]

theorem resumes_answering {package : ResponsePackage}
    (hbody : ∀ fd, package.bodyFd = some fd → 0 ≤ package.bodyFdOffset ∧
      0 ≤ package.bodyFdSize ∧
      package.bodyFdOffset + package.bodyFdSize ≤ (files fd).content.length)
    (state : ConnState) (parser : RequestParser) :
    Resumes files (responseBytes files package) package.closeAfter
      { state := state.answering parser package } where
  remains _ := rfl
  resumable _ := ⟨rfl, Nat.zero_le _, hbody⟩
  closing _ := rfl
  finished _ := nofun

/-- Wherever the writing of a response is interrupted, what was sent so far is the beginning of
the response; it is all of it when the connection is closed or reads again, and not before. -/
theorem responseWriter_resumes (files : Fd → OpenFile) (state : ConnState)
    (parser : RequestParser) (package : ResponsePackage)
    (hbody : ∀ fd, package.bodyFd = some fd → 0 ≤ package.bodyFdOffset ∧
      0 ≤ package.bodyFdSize ∧
      package.bodyFdOffset + package.bodyFdSize ≤ (files fd).content.length)
    {s : ResponseWriter}
    (h : (responseWriter files (state.answering parser package)).ReachedBy
      (fun s c => c.Possible s.state) s) :
    s.sent <+: responseBytes files package ∧
      ∀ c : WriteCall, c.Possible s.state → ∀ s', s.step files c = some s' →
        (s'.sent = responseBytes files package ↔ s'.ended = some (ending package.closeAfter)) ∧
        (s'.ended = none ∨ s'.ended = some (ending package.closeAfter)) := by
  have hstep {s s' : ResponseWriter} {c : WriteCall}
      (hresumes : Resumes files (responseBytes files package) package.closeAfter s)
      (hpossible : c.Possible s.state) (hstep : s.step files c = some s') :
      Resumes files (responseBytes files package) package.closeAfter s' ∧
        (s'.ended = none → s'.sent ≠ responseBytes files package) := by
    unfold step at hstep
    split_ifs at hstep with hended
    cases hstep
    exact hresumes.call (by simpa using hended) hpossible
  have hresumes : Resumes files (responseBytes files package) package.closeAfter s := by
    apply h.invariant
    · rintro s rfl
      exact resumes_answering hbody state parser
    · intro s c s' hresumes hpossible hs
      exact (hstep hresumes hpossible hs).1
  refine ⟨hresumes.isPrefix, fun c hpossible s' hs => ?_⟩
  obtain ⟨hresumes', hleft⟩ := hstep hresumes hpossible hs
  cases hended : s'.ended with
  | none => simpa using hleft hended
  | some e =>
      obtain ⟨hall, rfl⟩ := hresumes'.finished e hended
      simp [hall]

/-- The socket is full behind the first byte of the header section. -/
theorem responseWriter_resumes_interrupted :
    let files : Fd → OpenFile := fun _ => { content := ascii "abc" }
    let package : ResponsePackage :=
      { bytes := ascii "hi", bodyFd := some 5, bodyFdOffset := 1, bodyFdSize := 2 }
    let first : ResponseWriter := { state := ({ fd := 4 } : ConnState).answering {} package }
    let s := first.call files ⟨.sent 1 Nat.one_pos, []⟩
    let s' := s.call files ⟨.sent 1 Nat.one_pos, [.sent 2 Nat.two_pos]⟩
    s.sent = ascii "h" ∧ s'.sent = ascii "hibc" ∧ s.sent <+: responseBytes files package ∧
      (s'.sent = responseBytes files package ↔ s'.ended = some .resets) := by
  have hresumes := responseWriter_resumes (fun _ => { content := ascii "abc" }) { fd := 4 } {}
    { bytes := ascii "hi", bodyFd := some 5, bodyFdOffset := 1, bodyFdSize := 2 }
    (fun _ _ => by decide)
    (.step (.init rfl) (l := ⟨.sent 1 Nat.one_pos, []⟩)
      ⟨by decide, trivial, by simp [Succeeds]⟩ rfl)
  exact ⟨by decide, by decide, hresumes.1, (hresumes.2 ⟨.sent 1 Nat.one_pos, [.sent 2 Nat.two_pos]⟩
    ⟨by decide, by decide, by simp [Succeeds]⟩ _ rfl).1⟩

end ResponseWriter

end CppHttpd
