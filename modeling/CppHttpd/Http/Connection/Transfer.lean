import CppHttpd.Http.Connection.ConnectionManager

/-!
# Putting responses on a socket

`write_all` and `write_response` return nothing, so a connection thread goes on
whatever they could not send.  What the calls of `write` and `sendfile` return
is an argument, in the order of the calls; a call that is not answered is one
that the thread is still in.
-/

namespace CppHttpd

open CppHttpd.Foundation

/-- The values of `errno` that are told apart. -/
inductive Errno where
  | again
  | interrupted
  | other
  deriving DecidableEq, Repr

/-- What a call returned; `error` is `-1`. -/
inductive Answer where
  | write (result : Except Errno Nat)
  | sendfile (result : Except Errno Nat)

structure OpenFile where
  content : Bytes
  position : Nat := 0

/-- The files behind the descriptors, when so many answers are still to come. -/
abbrev OpenFiles := Nat → Fd → OpenFile

structure Transfer (A : Type*) where
  bytes : Bytes
  rest : List A
  /-- No answer belongs to the call that was made last. -/
  waits : Bool

def writeAll (data : Bytes) : List Answer → Transfer Answer
  | [] => ⟨[], [], data ≠ []⟩
  | answer :: rest =>
      if data = [] then ⟨[], answer :: rest, false⟩
      else
        match answer with
        | .write (.ok n) =>
            if n > data.length then ⟨[], answer :: rest, true⟩
            else if n = 0 then ⟨[], rest, false⟩
            else
              let later := writeAll (data.drop n) rest
              { later with bytes := data.take n ++ later.bytes }
        | .write (.error _) => ⟨[], rest, false⟩
        | .sendfile _ => ⟨[], answer :: rest, true⟩

/-- What a file holds from an offset on, `n` bytes at most. -/
def OpenFile.slice (file : OpenFile) (offset : Int) (n : Nat) : Bytes :=
  (file.content.drop offset.toNat).take n

/-- The kernel can send `n` bytes from there, if it was asked for `remaining`. -/
def OpenFile.CanSend (file : OpenFile) (offset remaining : Int) (n : Nat) : Prop :=
  0 ≤ offset ∧ (n : Int) ≤ remaining ∧ (file.slice offset n).length = n

instance (file : OpenFile) (offset remaining : Int) (n : Nat) :
    Decidable (file.CanSend offset remaining n) :=
  inferInstanceAs (Decidable (_ ∧ _ ∧ _))

/-- The `sendfile` loop of `write_response`. -/
def sendfileLoop (files : OpenFiles) (fd : Fd) :
    Int → Int → List Answer → Transfer Answer
  | _, remaining, [] => ⟨[], [], remaining > 0⟩
  | offset, remaining, answer :: rest =>
      if remaining > 0 then
        match answer with
        | .sendfile (.ok n) =>
            let file := files rest.length fd
            if file.CanSend offset remaining n then
              let later := sendfileLoop files fd (offset + n) (remaining - n) rest
              { later with bytes := file.slice offset n ++ later.bytes }
            else ⟨[], answer :: rest, true⟩
        | .sendfile (.error errno) =>
            if errno ≠ .again ∧ errno ≠ .interrupted then ⟨[], rest, false⟩
            else sendfileLoop files fd offset remaining rest
        | .write _ => ⟨[], answer :: rest, true⟩
      else ⟨[], answer :: rest, false⟩

/-- What was put on the socket for a response, the body behind the header section. -/
structure Written (A : Type*) where
  package : ResponsePackage
  head : Transfer A
  body : Transfer A

namespace Written

variable {A : Type*} (written : Written A)

def bytes : Bytes := written.head.bytes ++ written.body.bytes

def rest : List A := written.body.rest

def waits : Bool := written.head.waits || written.body.waits

end Written

def writeResponse (files : OpenFiles) (package : ResponsePackage) (answers : List Answer) :
    Written Answer :=
  let head := writeAll package.bytes answers
  let body :=
    if head.waits then ⟨[], head.rest, false⟩
    else
      match package.bodyFd with
      | none => ⟨[], head.rest, false⟩
      | some fd =>
          sendfileLoop files fd package.bodyFdOffset package.bodyFdSize head.rest
  { package, head, body }

/-! ## A connection thread that writes -/

inductive ThreadStage where
  | returned
  | reading (parser : RequestParser)
  | writing

structure ConnectionThread (W A : Type*) where
  written : List (Written A)
  world : W
  stage : ThreadStage
  rest : List A

variable {W A : Type*}

/-- The loop of `handle_connection`, with what `write` does for a response. -/
def threadLoop (h : Handler W) (write : ResponsePackage → List A → Written A)
    (clientIp : Bytes) :
    Nat → W → RequestParser → List ReadResult → List A → ConnectionThread W A
  | 0, w, p, _, answers => ⟨[], w, .reading p, answers⟩
  | fuel + 1, w, p, reads, answers =>
      let awaited :=
        if p.hasRequest then .complete p reads
        else if p.hasError then .refused p.error
        else awaitRequest p reads
      match awaited with
      | .closed => ⟨[], w, .returned, answers⟩
      | .blocked p => ⟨[], w, .reading p, answers⟩
      | .refused error =>
          -- `write_all` of a response without a file is all that `write_response` does
          let written :=
            write { bytes := errorResponse h.iteration error, closeAfter := true } answers
          ⟨[written], w, if written.waits then .writing else .returned, written.rest⟩
      | .complete p reads =>
          let (request, p) := p.getRequest
          let (package, w) := processRequest h w clientIp request
          let written := write package answers
          if written.waits then ⟨[written], w, .writing, written.rest⟩
          else if package.closeAfter then ⟨[written], w, .returned, written.rest⟩
          else
            let later := threadLoop h write clientIp fuel w p reads written.rest
            { later with written := written :: later.written }

/-- `handle_connection`; a turn of the loop but the last one uses up a read or a byte. -/
def connectionThread (h : Handler W) (files : OpenFiles) (w : W) (clientIp : Bytes)
    (reads : List ReadResult) (answers : List Answer) : ConnectionThread W Answer :=
  threadLoop h (writeResponse files) clientIp
    (reads.length + (reads.map ReadResult.size).sum + 1) w {} reads answers

/-! ## Writing does not change what is served -/

def Action.package : Action → ResponsePackage
  | .answered _ package => package
  | .refused bytes => { bytes, closeAfter := true }

/-- Write one response after the other, as long as the calls return. -/
def writeInOrder (write : ResponsePackage → List A → Written A) :
    List ResponsePackage → List A → List (Written A) × List A × Bool
  | [], answers => ([], answers, false)
  | package :: packages, answers =>
      let written := write package answers
      if written.waits then ([written], written.rest, true)
      else
        let (later, rest, waits) := writeInOrder write packages written.rest
        (written :: later, rest, waits)

/-- The thread writes these responses, and then it is where `blocked` says. -/
structure Writes (write : ResponsePackage → List A → Written A)
    (packages : List ResponsePackage) (blocked : Option RequestParser) (answers : List A)
    (thread : ConnectionThread W A) : Prop where
  written : thread.written = (writeInOrder write packages answers).1
  rest : thread.rest = (writeInOrder write packages answers).2.1
  stage : thread.stage =
    if (writeInOrder write packages answers).2.2 then .writing
    else blocked.elim .returned .reading

section

variable {write : ResponsePackage → List A → Written A} {answers : List A}
  {blocked : Option RequestParser} {package : ResponsePackage}

theorem Writes.nil (w : W) :
    Writes write [] blocked answers ⟨[], w, blocked.elim .returned .reading, answers⟩ :=
  ⟨rfl, rfl, rfl⟩

theorem Writes.waits (w : W) (packages : List ResponsePackage)
    (hwaits : (write package answers).waits = true) :
    Writes write (package :: packages) blocked answers
      ⟨[write package answers], w, .writing, (write package answers).rest⟩ := by
  constructor <;> simp [writeInOrder, hwaits]

theorem Writes.cons {packages : List ResponsePackage} {thread : ConnectionThread W A}
    (hwaits : (write package answers).waits = false)
    (later : Writes write packages blocked (write package answers).rest thread) :
    Writes write (package :: packages) blocked answers
      { thread with written := write package answers :: thread.written } := by
  obtain ⟨hwritten, hrest, hstage⟩ := later
  constructor <;> simp [writeInOrder, hwaits, hwritten, hrest, hstage]

theorem Writes.last (w : W) :
    Writes write [package] none answers
      ⟨[write package answers], w, if (write package answers).waits then .writing else .returned,
        (write package answers).rest⟩ := by
  cases hwaits : (write package answers).waits <;> constructor <;> simp [writeInOrder, hwaits]

end

theorem threadLoop_writes (h : Handler W) (write : ResponsePackage → List A → Written A)
    (clientIp : Bytes) (fuel : Nat) (w : W) (p : RequestParser) (reads : List ReadResult)
    (answers : List A) :
    let served := connectionLoop h clientIp fuel w p reads
    Writes write (served.actions.map Action.package) served.blocked answers
      (threadLoop h write clientIp fuel w p reads answers) := by
  induction fuel generalizing w p reads answers with
  | zero => exact .nil w
  | succ fuel ih =>
      rw [connectionLoop, threadLoop]
      generalize (if p.hasRequest then Awaited.complete p reads
        else if p.hasError then .refused p.error
        else awaitRequest p reads) = awaited
      cases awaited with
      | closed => exact .nil w
      | blocked p => exact .nil w
      | refused error => exact .last w
      | complete p reads =>
          dsimp only
          generalize processRequest h w clientIp p.getRequest.1 = processed
          obtain ⟨package, w⟩ := processed
          dsimp only
          cases hwaits : (write package answers).waits with
          | true =>
              cases package.closeAfter <;> exact .waits w _ hwaits
          | false =>
              cases package.closeAfter with
              | true => exact .cons hwaits (.nil w)
              | false => exact .cons hwaits (ih w p.getRequest.2 reads _)

end CppHttpd
