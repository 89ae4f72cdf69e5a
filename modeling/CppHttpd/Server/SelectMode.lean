import CppHttpd.Server.Poller

/-!
# One connection in event-loop mode

Where a thread blocks in `read` and `write`, the event loop keeps what a
connection is doing in a `ConnState` and takes one step of it whenever the
socket is ready.  The kernel's answers to the system calls of a step are
arguments.
-/

namespace CppHttpd

open CppHttpd.Foundation RequestParser

inductive Phase where
  | reading
  | writing
  deriving DecidableEq, Repr

def Phase.interest : Phase → Interest
  | .reading => { wantRead := true, wantWrite := false }
  | .writing => { wantRead := false, wantWrite := true }

structure ConnState where
  fd : Fd
  clientIp : Bytes := []
  parser : RequestParser := {}
  phase : Phase := .reading
  writeBuf : Bytes := []
  writeOffset : Nat := 0
  acceptedAt : Int := 0
  closeAfterWrite : Bool := false
  sendfileFd : Option Fd := none
  sendfileOffset : Int := 0
  sendfileSize : Int := 0

structure ConnTurn (W : Type*) where
  /-- The value returned: whether the connection should be closed. -/
  close : Bool
  state : ConnState
  world : W
  actions : List Action := []
  /-- The argument of `poller.modify`, if it was called. -/
  modify : Option Interest := none

def resetConnToReading (state : ConnState) : ConnState × Interest :=
  ({ state with
      sendfileFd := none
      parser := state.parser.reset
      phase := .reading
      writeBuf := []
      writeOffset := 0
      sendfileOffset := 0
      sendfileSize := 0
      closeAfterWrite := false },
    { wantRead := true, wantWrite := false })

/-- The connection with a response to write, `parser` being behind its request. -/
def ConnState.answering (state : ConnState) (parser : RequestParser)
    (package : ResponsePackage) : ConnState :=
  { state with
    parser := parser
    closeAfterWrite := package.closeAfter
    writeBuf := package.bytes
    writeOffset := 0
    sendfileFd := package.bodyFd
    sendfileOffset := package.bodyFdOffset
    sendfileSize := package.bodyFdSize
    phase := .writing }

variable {W : Type*}

def processReadable (h : Handler W) (w : W) (state : ConnState) : ReadResult → ConnTurn W
  | .again => { close := false, state, world := w }
  | .interrupted => { close := true, state, world := w }
  | .failed => { close := true, state, world := w }
  | .ok data =>
      if data = [] then { close := true, state, world := w }
      else
        let state := { state with parser := state.parser.feed data }
        if state.parser.hasRequest then
          let (request, parser) := state.parser.getRequest
          let (package, w) := processRequest h w state.clientIp request
          { close := false
            state := state.answering parser package
            world := w
            actions := [.answered request package]
            modify := some { wantRead := false, wantWrite := true } }
        else if state.parser.hasError then
          { close := true
            state
            world := w
            actions := [.refused (errorResponse h.iteration state.parser.error)] }
        else { close := false, state, world := w }

inductive ReadableOutcome (h : Handler W) (w : W) (s : ConnState) (data : Bytes) :
    ConnTurn W → Prop
  | ended (hdata : data = []) :
      ReadableOutcome h w s data { close := true, state := s, world := w }
  | answers {s' : ConnState} {package : ResponsePackage} {w' : W}
      (hdata : data ≠ []) (hdone : (s.parser.feed data).state = .done)
      (hprocess : processRequest h w s.clientIp (s.parser.feed data).request = (package, w'))
      (hstate : s' = s.answering (s.parser.feed data).getRequest.2 package) :
      ReadableOutcome h w s data
        { close := false
          state := s'
          world := w'
          actions := [.answered (s.parser.feed data).request package]
          modify := some { wantRead := false, wantWrite := true } }
  | refuses {s' : ConnState} (hdata : data ≠ [])
      (herr : (s.parser.feed data).state = .error)
      (hstate : s' = { s with parser := s.parser.feed data }) :
      ReadableOutcome h w s data
        { close := true
          state := s'
          world := w
          actions := [.refused (errorResponse h.iteration (s.parser.feed data).error)] }
  | waits {s' : ConnState} (hdata : data ≠ [])
      (hdone : (s.parser.feed data).state ≠ .done)
      (herr : (s.parser.feed data).state ≠ .error)
      (hstate : s' = { s with parser := s.parser.feed data }) :
      ReadableOutcome h w s data { close := false, state := s', world := w }

theorem processReadable_outcome (h : Handler W) (w : W) (s : ConnState) (data : Bytes) :
    ReadableOutcome h w s data (processReadable h w s (.ok data)) := by
  rw [processReadable]
  split_ifs with hdata
  · exact .ended hdata
  · dsimp only
    split_ifs with hrequest herror
    · exact .answers hdata (by simpa [hasRequest] using hrequest) rfl rfl
    · exact .refuses hdata (by simpa [hasError] using herror) rfl
    · exact .waits hdata (by simpa [hasRequest] using hrequest)
        (by simpa [hasError] using herror) rfl

theorem processReadable_fd (h : Handler W) (w : W) (state : ConnState) (result : ReadResult) :
    (processReadable h w state result).state.fd = state.fd := by
  cases result with
  | ok data =>
      have hout := processReadable_outcome h w state data
      generalize processReadable h w state (.ok data) = turn at hout ⊢
      cases hout with
      | ended => rfl
      | answers _ _ _ hstate => rw [hstate]; rfl
      | refuses _ _ hstate => rw [hstate]
      | waits _ _ _ hstate => rw [hstate]
  | again => rfl
  | interrupted => rfl
  | failed => rfl

/-! ## Writing -/

/-- What `write` or `sendfile` returned; neither sends nothing without saying why. -/
inductive SendResult where
  | sent (n : Nat) (positive : 0 < n)
  | again
  | failed

/-- The first part of `process_writable`; an exception is an early `return`. -/
def writePending (state : ConnState) (write : SendResult) :
    Except (Bool × ConnState) ConnState :=
  if state.writeBuf.length - state.writeOffset > 0 then
    match write with
    | .again => .error (false, state)
    | .failed => .error (true, state)
    | .sent n _ =>
        let state := { state with writeOffset := state.writeOffset + n }
        if state.writeOffset < state.writeBuf.length then .error (false, state)
        else .ok state
  else .ok state

def ConnState.bodySent (state : ConnState) (n : Nat) : ConnState :=
  { state with
    sendfileOffset := state.sendfileOffset + n
    sendfileSize := state.sendfileSize - n }

/-- The `sendfile` loop; the kernel says `EAGAIN` behind the results that are given. -/
def sendBody (state : ConnState) : List SendResult → Except (Bool × ConnState) ConnState
  | [] =>
      if state.sendfileSize > 0 then .error (false, state)
      else .ok { state with sendfileFd := none }
  | result :: results =>
      if state.sendfileSize > 0 then
        match result with
        | .again => .error (false, state)
        | .failed => .error (true, { state with sendfileFd := none })
        | .sent n _ => sendBody (state.bodySent n) results
      else .ok { state with sendfileFd := none }

def processWritable (w : W) (state : ConnState) (write : SendResult)
    (sendfiles : List SendResult) : ConnTurn W :=
  let written := do
    let state ← writePending state write
    if state.sendfileFd.isSome then sendBody state sendfiles else .ok state
  match written with
  | .error (close, state) => { close, state, world := w }
  | .ok state =>
      if state.closeAfterWrite then { close := true, state, world := w }
      else
        let (state, interest) := resetConnToReading state
        { close := false, state, world := w, modify := some interest }

/-! ## What a call of `process_writable` can do -/

/-- The members that say what comes after the response are not touched by writing it. -/
structure SameCourse (s s' : ConnState) : Prop where
  fd : s'.fd = s.fd
  clientIp : s'.clientIp = s.clientIp
  parser : s'.parser = s.parser
  phase : s'.phase = s.phase
  closeAfterWrite : s'.closeAfterWrite = s.closeAfterWrite
  acceptedAt : s'.acceptedAt = s.acceptedAt

theorem SameCourse.refl (s : ConnState) : SameCourse s s := ⟨rfl, rfl, rfl, rfl, rfl, rfl⟩

theorem SameCourse.trans {s s' s'' : ConnState} (first : SameCourse s s')
    (second : SameCourse s' s'') : SameCourse s s'' where
  fd := second.fd.trans first.fd
  clientIp := second.clientIp.trans first.clientIp
  parser := second.parser.trans first.parser
  phase := second.phase.trans first.phase
  closeAfterWrite := second.closeAfterWrite.trans first.closeAfterWrite
  acceptedAt := second.acceptedAt.trans first.acceptedAt

/-- A part of the response was written, or all of it, or the socket is broken. -/
inductive WriteOutcome (s : ConnState) (failing : Prop) :
    Except (Bool × ConnState) ConnState → Prop
  | waits {s' : ConnState} (course : SameCourse s s') :
      WriteOutcome s failing (.error (false, s'))
  | broken {s' : ConnState} (course : SameCourse s s') (hfail : failing) :
      WriteOutcome s failing (.error (true, s'))
  | written {s' : ConnState} (course : SameCourse s s') : WriteOutcome s failing (.ok s')

theorem WriteOutcome.of_course {s s' : ConnState} {failing failing' : Prop}
    {r : Except (Bool × ConnState) ConnState} (course : SameCourse s s')
    (hfail : failing → failing') (h : WriteOutcome s' failing r) :
    WriteOutcome s failing' r := by
  cases h with
  | waits course' => exact .waits (course.trans course')
  | broken course' hbroken => exact .broken (course.trans course') (hfail hbroken)
  | written course' => exact .written (course.trans course')

theorem writePending_outcome (s : ConnState) (write : SendResult) :
    WriteOutcome s (write = .failed) (writePending s write) := by
  unfold writePending
  split_ifs with hpending
  · cases write with
    | again => exact .waits (.refl s)
    | failed => exact .broken (.refl s) rfl
    | sent n positive =>
        dsimp only
        split_ifs
        · exact .waits ⟨rfl, rfl, rfl, rfl, rfl, rfl⟩
        · exact .written ⟨rfl, rfl, rfl, rfl, rfl, rfl⟩
  · exact .written (.refl s)

theorem sendBody_outcome (results : List SendResult) (s : ConnState) :
    WriteOutcome s (.failed ∈ results) (sendBody s results) := by
  induction results generalizing s with
  | nil =>
      unfold sendBody
      split_ifs
      · exact .waits (.refl s)
      · exact .written ⟨rfl, rfl, rfl, rfl, rfl, rfl⟩
  | cons result results ih =>
      unfold sendBody
      split_ifs
      · cases result with
        | again => exact .waits (.refl s)
        | failed => exact .broken ⟨rfl, rfl, rfl, rfl, rfl, rfl⟩ (List.mem_cons_self)
        | sent n positive =>
            have course : SameCourse s (s.bodySent n) := ⟨rfl, rfl, rfl, rfl, rfl, rfl⟩
            exact (ih _).of_course course (List.mem_cons_of_mem _)
      · exact .written ⟨rfl, rfl, rfl, rfl, rfl, rfl⟩

/-- Every system call of the step succeeds, though it may take only a part. -/
def Succeeds (write : SendResult) (sendfiles : List SendResult) : Prop :=
  write ≠ .failed ∧ .failed ∉ sendfiles

inductive WritableOutcome (w : W) (s : ConnState) (failing : Prop) : ConnTurn W → Prop
  | waits {s' : ConnState} (course : SameCourse s s') :
      WritableOutcome w s failing { close := false, state := s', world := w }
  | breaks {s' : ConnState} (course : SameCourse s s') (hfail : failing) :
      WritableOutcome w s failing { close := true, state := s', world := w }
  | closes {s' : ConnState} (course : SameCourse s s') (hclose : s.closeAfterWrite = true) :
      WritableOutcome w s failing { close := true, state := s', world := w }
  | resets {s' : ConnState} (course : SameCourse s s') (hkeep : s.closeAfterWrite = false) :
      WritableOutcome w s failing
        { close := false
          state := (resetConnToReading s').1
          world := w
          modify := some (resetConnToReading s').2 }

theorem processWritable_outcome (w : W) (s : ConnState) (write : SendResult)
    (sendfiles : List SendResult) :
    WritableOutcome w s (¬ Succeeds write sendfiles)
      (processWritable w s write sendfiles) := by
  have hwritten : WriteOutcome s (¬ Succeeds write sendfiles) (do
      let state ← writePending s write
      if state.sendfileFd.isSome then sendBody state sendfiles else .ok state) := by
    have hpending := writePending_outcome s write
    cases hresult : writePending s write with
    | error r =>
        rw [hresult] at hpending
        exact hpending.of_course (.refl s) fun hfail hsucceeds => hsucceeds.1 hfail
    | ok s' =>
        rw [hresult] at hpending
        cases hpending with
        | written course =>
            change WriteOutcome s _ (if s'.sendfileFd.isSome then _ else _)
            split_ifs
            · exact (sendBody_outcome sendfiles s').of_course course
                fun hfail hsucceeds => hsucceeds.2 hfail
            · exact .written course
  unfold processWritable
  revert hwritten
  generalize (do
    let state ← writePending s write
    if state.sendfileFd.isSome then sendBody state sendfiles else Except.ok state) = written
  intro hwritten
  cases hwritten with
  | waits course => exact .waits course
  | broken course hfail => exact .breaks course hfail
  | @written s' course =>
      dsimp only
      split_ifs with hclose
      · exact .closes course (course.closeAfterWrite ▸ hclose)
      · exact .resets course (by simpa [course.closeAfterWrite] using hclose)

theorem processWritable_fd (w : W) (state : ConnState) (write : SendResult)
    (sendfiles : List SendResult) :
    (processWritable w state write sendfiles).state.fd = state.fd := by
  have hout := processWritable_outcome w state write sendfiles
  generalize processWritable w state write sendfiles = turn at hout ⊢
  cases hout with
  | waits course => exact course.fd
  | breaks course _ => exact course.fd
  | closes course _ => exact course.fd
  | resets course _ => exact course.fd

end CppHttpd
