import CppHttpd.Http.Connection.Transfer
import CppHttpd.Server.SelectMode
import Mathlib.Data.Stream.Init

/-!
# When the body loops end

The two `sendfile` loops subtract what was sent from what remains.  At the end of
the file `sendfile` sends nothing, and this is no error: a loop that comes there
with something remaining, since the file became shorter after `stat`, has no way
out.
-/

namespace CppHttpd

open CppHttpd.Foundation

/-! ## Results of `sendfile` -/

abbrev SendfileResult := Except Errno Nat

namespace SendfileResult

def count : SendfileResult → Nat
  | .ok n => n
  | .error _ => 0

def Transient : SendfileResult → Prop
  | .ok _ => False
  | .error errno => errno ≠ .other

/-- What the kernel can answer for a file of this length. -/
def Possible (length : Nat) (offset remaining : Int) : SendfileResult → Prop
  | .ok n => n ≤ remaining ∧ (0 < n → offset + n ≤ length) ∧ (n = 0 → length ≤ offset)
  | .error _ => True

end SendfileResult

def countBefore (results : Stream' SendfileResult) (i : Nat) : Nat :=
  ((results.take i).map SendfileResult.count).sum

def ResultsPossible (length : Nat) (offset size : Int) (results : Stream' SendfileResult) : Prop :=
  ∀ i, (results.get i).Possible length (offset + countBefore results i)
    (size - countBefore results i)

def FinitelyTransient (results : Stream' SendfileResult) : Prop :=
  ∃ k, ∀ i, k ≤ i → ¬ (results.get i).Transient

theorem ResultsPossible.head {length : Nat} {offset size : Int}
    {results : Stream' SendfileResult} (h : ResultsPossible length offset size results) :
    results.head.Possible length offset size := by
  simpa [countBefore] using h 0

theorem ResultsPossible.tail {length : Nat} {offset size : Int}
    {results : Stream' SendfileResult} (h : ResultsPossible length offset size results) :
    ResultsPossible length (offset + results.head.count) (size - results.head.count)
      results.tail := by
  intro i
  have hi := h (i + 1)
  have hcount : countBefore results (i + 1) =
      results.head.count + countBefore results.tail i := by
    simp [countBefore, Stream'.take_succ]
  rw [hcount, Int.natCast_add, ← Int.add_assoc, ← Int.sub_sub] at hi
  exact hi

/-! ## The loops -/

/-- The `sendfile` loop of `process_writable`, with `-1` and zero as the kernel returns them.
There is no value as long as the loop waits for a further result. -/
def sendBodyLoop (state : ConnState) :
    List SendfileResult → Option (Except (Bool × ConnState) ConnState)
  | [] => if state.sendfileSize > 0 then none else some (.ok { state with sendfileFd := none })
  | result :: results =>
      if state.sendfileSize > 0 then
        match result with
        | .ok n => sendBodyLoop (state.bodySent n) results
        | .error .again => some (.error (false, state))
        | .error .interrupted => some (.error (true, { state with sendfileFd := none }))
        | .error .other => some (.error (true, { state with sendfileFd := none }))
      else some (.ok { state with sendfileFd := none })

def SendResult.toSendfile : SendResult → SendfileResult
  | .sent n _ => .ok n
  | .again => .error .again
  | .failed => .error .other

/-- On results that are not zero it is the loop of `sendBody`. -/
theorem sendBodyLoop_eq (state : ConnState) (results : List SendResult) :
    sendBodyLoop state (results.map SendResult.toSendfile ++ [.error .again]) =
      some (sendBody state results) := by
  induction results generalizing state with
  | nil =>
      rw [List.map_nil, List.nil_append]
      unfold sendBodyLoop sendBody
      split_ifs <;> rfl
  | cons result results ih =>
      rw [List.map_cons, List.cons_append]
      unfold sendBodyLoop sendBody
      split_ifs
      · cases result with
        | sent n positive => exact ih (state.bodySent n)
        | again => rfl
        | failed => rfl
      · rfl

/-- What both loops have in common, `ends` saying whether a loop with this offset and this
much remaining has ended by the time these results are used. -/
structure BodyLoop (length : Nat) (ends : Int → Int → List SendfileResult → Bool) : Prop where
  done : ∀ {offset remaining results}, remaining ≤ 0 → ends offset remaining results = true
  waits : ∀ {offset remaining}, 0 < remaining → ends offset remaining [] = false
  sends : ∀ {offset remaining : Int} {n results}, 0 < remaining → 0 ≤ offset →
    SendfileResult.Possible length offset remaining (.ok n) →
      ends offset remaining (.ok n :: results) = ends (offset + n) (remaining - n) results
  fails : ∀ {offset remaining results}, 0 < remaining →
    ends offset remaining (.error .other :: results) = true
  transient : ∀ {offset remaining errno results}, 0 < remaining →
    ends offset remaining (.error errno :: results) = true ∨
      ends offset remaining (.error errno :: results) = ends offset remaining results

theorem slice_length {file : OpenFile} {offset remaining : Int} {n : Nat} (hoffset : 0 ≤ offset)
    (h : SendfileResult.Possible file.content.length offset remaining (.ok n)) :
    (file.slice offset n).length = n := by
  obtain ⟨-, hfile, -⟩ := h
  rw [OpenFile.slice, List.length_take, List.length_drop]
  omega

theorem writeResponse_bodyLoop (file : OpenFile) (fd : Fd) :
    BodyLoop file.content.length fun offset remaining results =>
      !(sendfileLoop (fun _ _ => file) fd offset remaining (results.map .sendfile)).waits where
  done {offset remaining results} hremaining := by
    have hdone : ¬ remaining > 0 := by omega
    cases results <;> simp [sendfileLoop, hdone]
  waits hremaining := by simp [sendfileLoop, hremaining]
  sends {offset remaining n results} hremaining hoffset hpossible := by
    have hcan : file.CanSend offset remaining n :=
      ⟨hoffset, hpossible.1, slice_length hoffset hpossible⟩
    simp [sendfileLoop, hremaining, hcan]
  fails hremaining := by simp [sendfileLoop, hremaining]
  transient {offset remaining errno results} hremaining := by
    cases errno <;> simp [sendfileLoop, hremaining]

theorem processWritable_bodyLoop (state : ConnState) (length : Nat) :
    BodyLoop length fun offset remaining results =>
      (sendBodyLoop { state with sendfileOffset := offset, sendfileSize := remaining }
        results).isSome where
  done {offset remaining results} hremaining := by
    have hdone : ¬ remaining > 0 := by omega
    cases results <;> simp [sendBodyLoop, hdone]
  waits hremaining := by simp [sendBodyLoop, hremaining]
  sends hremaining _ _ := by
    simp [sendBodyLoop, hremaining, ConnState.bodySent]
  fails hremaining := by simp [sendBodyLoop, hremaining]
  transient {offset remaining errno results} hremaining := by
    cases errno <;> simp [sendBodyLoop, hremaining]

namespace BodyLoop

variable {length : Nat} {ends : Int → Int → List SendfileResult → Bool}

/-- In the file, every result that is no error takes the loop further. -/
theorem ends_of_settled (h : BodyLoop length ends) (m : Nat) {offset remaining : Int}
    {results : Stream' SendfileResult} (hm : remaining ≤ m) (hoffset : 0 ≤ offset)
    (hwithin : offset + remaining ≤ length)
    (hpossible : ResultsPossible length offset remaining results)
    (hsettled : ∀ i, ¬ (results.get i).Transient) :
    ∃ n, ends offset remaining (results.take n) = true := by
  induction m generalizing offset remaining results with
  | zero => exact ⟨0, h.done hm⟩
  | succ m ih =>
      by_cases hremaining : remaining ≤ 0
      · exact ⟨0, h.done hremaining⟩
      · rw [Int.not_le] at hremaining
        have hhead := hpossible.head
        have htail := hpossible.tail
        cases hresult : results.head with
        | ok n =>
            rw [hresult] at hhead htail
            obtain ⟨hle, hfile, hend⟩ := hhead
            have hpos : n ≠ 0 := fun hzero => by
              have := hend hzero
              omega
            obtain ⟨k, hk⟩ := ih (by simp only [SendfileResult.count]; omega)
              (by simp only [SendfileResult.count]; omega)
              (by simp only [SendfileResult.count]; omega) htail fun i => hsettled (i + 1)
            refine ⟨k + 1, ?_⟩
            rw [Stream'.take_succ, hresult, h.sends hremaining hoffset ⟨hle, hfile, hend⟩]
            exact hk
        | error errno =>
            have hother : errno = .other := by
              have hnot := hsettled 0
              rw [show results.get 0 = results.head from rfl, hresult] at hnot
              simpa [SendfileResult.Transient] using hnot
            refine ⟨1, ?_⟩
            rw [Stream'.take_succ, hresult, hother]
            exact h.fails hremaining

/-- Results of `EAGAIN` and `EINTR` end the loop, or leave it where it was. -/
theorem ends_of_within (h : BodyLoop length ends) (k : Nat) {offset remaining : Int}
    {results : Stream' SendfileResult} (hoffset : 0 ≤ offset)
    (hwithin : offset + remaining ≤ length)
    (hpossible : ResultsPossible length offset remaining results)
    (hsettled : ∀ i, k ≤ i → ¬ (results.get i).Transient) :
    ∃ n, ends offset remaining (results.take n) = true := by
  induction k generalizing offset remaining results with
  | zero =>
      exact h.ends_of_settled remaining.toNat (Int.self_le_toNat _) hoffset hwithin hpossible
        fun i => hsettled i i.zero_le
  | succ k ih =>
      by_cases hremaining : remaining ≤ 0
      · exact ⟨0, h.done hremaining⟩
      · rw [Int.not_le] at hremaining
        have hhead := hpossible.head
        have hlater : ∃ n, ends (offset + results.head.count) (remaining - results.head.count)
            (results.tail.take n) = true :=
          ih (by omega) (by omega) hpossible.tail fun i hi => hsettled (i + 1) (by omega)
        obtain ⟨n, hn⟩ := hlater
        cases hresult : results.head with
        | ok count =>
            rw [hresult] at hhead hn
            refine ⟨n + 1, ?_⟩
            rw [Stream'.take_succ, hresult, h.sends hremaining hoffset hhead]
            exact hn
        | error errno =>
            rw [hresult] at hn
            have hfirst : ends offset remaining (.error errno :: results.tail.take n) = true := by
              rcases h.transient hremaining with hends | hstays
              · exact hends
              · rw [hstays]
                simpa [SendfileResult.count] using hn
            exact ⟨n + 1, by rwa [Stream'.take_succ, hresult]⟩

/-- At the end of the file nothing ends the loop. -/
theorem waits_of_end (h : BodyLoop length ends) {offset remaining : Int} (hoffset : 0 ≤ offset)
    (hremaining : 0 < remaining) (hend : length ≤ offset) (n : Nat) :
    ends offset remaining ((Stream'.const (.ok 0)).take n) = false := by
  induction n with
  | zero => exact h.waits hremaining
  | succ n ih =>
      have hzero : SendfileResult.Possible length offset remaining (.ok 0) :=
        ⟨by omega, nofun, fun _ => hend⟩
      change ends offset remaining (.ok 0 :: (Stream'.const (.ok 0)).take n) = false
      rw [h.sends hremaining hoffset hzero]
      simpa using ih

def upToEnd (length : Nat) (offset : Int) : Stream' SendfileResult :=
  .cons (.ok (length - offset).toNat) (.const (.ok 0))

theorem countBefore_const (i : Nat) :
    countBefore (.const (.ok 0)) i = 0 := by
  induction i with
  | zero => rfl
  | succ i ih => simpa [countBefore, Stream'.take_succ, SendfileResult.count] using ih

theorem upToEnd_possible {offset size : Int} (hsize : 0 < size)
    (hbeyond : length < offset + size) :
    ResultsPossible length offset size (upToEnd length offset) := by
  intro i
  cases i with
  | zero =>
      have hhead : SendfileResult.Possible length offset size
          (.ok (length - offset).toNat) := by
        refine ⟨?_, ?_, ?_⟩ <;> omega
      simpa [upToEnd, countBefore] using hhead
  | succ i =>
      have hcount : countBefore (upToEnd length offset) (i + 1) = (length - offset).toNat := by
        have hconst := countBefore_const i
        unfold countBefore at hconst
        simp [countBefore, upToEnd, Stream'.take_succ, SendfileResult.count, hconst]
      rw [hcount]
      have hzero : SendfileResult.Possible length (offset + (length - offset).toNat)
          (size - (length - offset).toNat) (.ok 0) := by
        refine ⟨?_, nofun, ?_⟩ <;> omega
      exact hzero

theorem upToEnd_finitelyTransient (offset : Int) : FinitelyTransient (upToEnd length offset) := by
  refine ⟨0, fun i _ => ?_⟩
  cases i <;> exact id

theorem upToEnd_waits (h : BodyLoop length ends) {offset size : Int} (hoffset : 0 ≤ offset)
    (hsize : 0 < size) (hbeyond : length < offset + size) (n : Nat) :
    ends offset size ((upToEnd length offset).take n) = false := by
  cases n with
  | zero => exact h.waits hsize
  | succ n =>
      have hfirst : SendfileResult.Possible length offset size (.ok (length - offset).toNat) :=
        (upToEnd_possible hsize hbeyond).head
      rw [upToEnd, Stream'.take_succ, Stream'.head_cons, Stream'.tail_cons,
        h.sends hsize hoffset hfirst]
      apply h.waits_of_end <;> omega

/-- The loop ends for all results exactly if its part of the file is still there. -/
theorem ends_iff (h : BodyLoop length ends) {offset size : Int} (hoffset : 0 ≤ offset) :
    (∀ results, ResultsPossible length offset size results → FinitelyTransient results →
        ∃ n, ends offset size (results.take n) = true) ↔
      (size ≤ 0 ∨ offset + size ≤ length) := by
  constructor
  · intro hends
    by_contra hshort
    rw [not_or, Int.not_le, Int.not_le] at hshort
    obtain ⟨hsize, hbeyond⟩ := hshort
    obtain ⟨n, hn⟩ := hends _ (upToEnd_possible hsize hbeyond) (upToEnd_finitelyTransient offset)
    rw [h.upToEnd_waits hoffset hsize hbeyond] at hn
    cases hn
  · rintro (hempty | hwithin) results hpossible ⟨k, hsettled⟩
    · exact ⟨0, h.done hempty⟩
    · exact h.ends_of_within k hoffset hwithin hpossible hsettled

end BodyLoop

/-! ## Both loops -/

/-- The results after which the loop of `write_response` has ended. -/
def WriteResponseEnds (file : OpenFile) (fd : Fd) (offset size : Int)
    (results : Stream' SendfileResult) : Prop :=
  ∃ n, (sendfileLoop (fun _ _ => file) fd offset size
    ((results.take n).map .sendfile)).waits = false

def ProcessWritableEnds (state : ConnState) (results : Stream' SendfileResult) : Prop :=
  ∃ n, (sendBodyLoop state (results.take n)).isSome = true

/-- Whatever `sendfile` returns, with finitely many `EAGAIN` and `EINTR`, both loops end: exactly
if the file, when it is sent, reaches at least to where it is to be sent to. -/
theorem transferLoops_end_iff (file : OpenFile) (fd : Fd) (state : ConnState) {offset size : Int}
    (hoffset : 0 ≤ offset) :
    ((∀ results, ResultsPossible file.content.length offset size results →
        FinitelyTransient results → WriteResponseEnds file fd offset size results) ↔
      (size ≤ 0 ∨ offset + size ≤ file.content.length)) ∧
    ((∀ results, ResultsPossible file.content.length offset size results →
        FinitelyTransient results → ProcessWritableEnds
          { state with sendfileFd := some fd, sendfileOffset := offset, sendfileSize := size }
          results) ↔
      (size ≤ 0 ∨ offset + size ≤ file.content.length)) := by
  constructor
  · simpa [WriteResponseEnds] using (writeResponse_bodyLoop file fd).ends_iff hoffset
  · exact (processWritable_bodyLoop { state with sendfileFd := some fd } _).ends_iff hoffset

/-- The second half of a file of four bytes. -/
theorem transferLoops_end_iff_half :
    let file : OpenFile := { content := ascii "abcd" }
    let state : ConnState :=
      { fd := 4, sendfileFd := some 5, sendfileOffset := 2, sendfileSize := 2 }
    (∀ results, ResultsPossible file.content.length 2 2 results → FinitelyTransient results →
        WriteResponseEnds file 5 2 2 results) ∧
      ∀ results, ResultsPossible file.content.length 2 2 results → FinitelyTransient results →
        ProcessWritableEnds state results := by
  have hwithin : (2 : Int) + 2 ≤ (ascii "abcd").length := by decide
  exact ⟨(transferLoops_end_iff { content := ascii "abcd" } 5 { fd := 4 } (by decide)).1.2
      (.inr hwithin),
    (transferLoops_end_iff { content := ascii "abcd" } 5 { fd := 4 } (by decide)).2.2
      (.inr hwithin)⟩

/-- Two bytes were cut off a file of five, after `stat` said that there are five. -/
theorem transferLoops_stay_in_short_file :
    let file : OpenFile := { content := ascii "abc" }
    ∃ results, ResultsPossible file.content.length 0 5 results ∧ FinitelyTransient results ∧
      ¬ WriteResponseEnds file 7 0 5 results ∧
      ¬ ProcessWritableEnds
        { fd := 4, phase := .writing, sendfileFd := some 7, sendfileSize := 5 } results := by
  intro file
  have hbeyond : (file.content.length : Int) < 0 + 5 := by decide
  refine ⟨BodyLoop.upToEnd file.content.length 0, BodyLoop.upToEnd_possible (by decide) hbeyond,
    BodyLoop.upToEnd_finitelyTransient 0, ?_, ?_⟩
  · rintro ⟨n, hn⟩
    have hwaits := (writeResponse_bodyLoop file 7).upToEnd_waits (by decide) (by decide) hbeyond n
    simp [hn] at hwaits
  · rintro ⟨n, hn⟩
    have hwaits := (processWritable_bodyLoop { fd := 4, phase := .writing, sendfileFd := some 7 }
      file.content.length).upToEnd_waits (by decide) (by decide) hbeyond n
    simp [hn] at hwaits

end CppHttpd
