import CppHttpd.Http.Core.ParserMemory

/-!
# The parser between two calls

`advance()` comes to an end, and then the parser has a request, has failed, or
has to wait: for the end of a line that may still come, or for the rest of a
body.
-/

namespace CppHttpd.RequestParser

open CppHttpd.Foundation

/-! ## The loop of `advance()` -/

/-- The loop comes to an end in the second parser, however many turns that takes. -/
inductive Advances : RequestParser → RequestParser → Prop
  | stopped {p : RequestParser} (hstop : p.state = .done ∨ p.state = .error) : Advances p p
  | waits {p p' : RequestParser} (hgo : ¬ (p.state = .done ∨ p.state = .error))
      (hturn : p.turn = (false, p')) : Advances p p'
  | again {p q p' : RequestParser} (hgo : ¬ (p.state = .done ∨ p.state = .error))
      (hturn : p.turn = (true, q)) (hrest : Advances q p') : Advances p p'

/-- A turn that makes progress shortens the buffer, or it is the last one. -/
theorem turn_progress {p q : RequestParser} (hturn : p.turn = (true, q)) :
    q.buffer.length < p.buffer.length ∨ q.state = .done := by
  have hout := turn_outcome p
  rw [hturn] at hout
  cases hout with
  | consumes _ _ hlt => exact .inl hlt
  | finishes _ hdone _ => exact .inr hdone

theorem advances_advanceLoop (fuel : Nat) {p : RequestParser} (hfuel : p.buffer.length < fuel) :
    Advances p (advanceLoop fuel p) := by
  induction fuel generalizing p with
  | zero => omega
  | succ fuel ih =>
      rw [advanceLoop]
      split_ifs with hstop
      · exact .stopped hstop
      · cases hturn : p.turn with
        | mk progress q =>
            cases progress with
            | false => exact .waits hstop hturn
            | true =>
                rcases turn_progress hturn with hlt | hdone
                · exact .again hstop hturn (ih (by omega))
                · have hend := advanceLoop_of_stopped (.inl hdone) fuel
                  dsimp only
                  rw [hend]
                  exact .again hstop hturn (.stopped (.inl hdone))

theorem advances_advance (p : RequestParser) : Advances p p.advance :=
  advances_advanceLoop _ (Nat.lt_succ_self _)

/-! ## What a turn keeps -/

/-- An error has a kind, and a body has been announced by a POST within the limit. -/
structure Sound (p : RequestParser) : Prop where
  error : p.state = .error → p.error ≠ .ok
  body : p.state = .body → p.request.method = .POST ∧ p.bodyBytesRemaining ≤ MAX_BODY_SIZE

theorem sound_of_other {p : RequestParser} (herror : p.state ≠ .error) (hbody : p.state ≠ .body) :
    Sound p where
  error h := absurd h herror
  body h := absurd h hbody

theorem sound_fail (p : RequestParser) {kind : ParseError} (hkind : kind ≠ .ok)
    (message : String) : Sound (p.fail kind message).2 where
  error _ := hkind
  body h := by cases h

theorem sound_parseRequestLine (p : RequestParser) (line : Bytes) :
    Sound (parseRequestLine p line).2 := by
  have haccept : ∀ (q : RequestParser) (method : Method), Sound (q.acceptMethod method).2 := by
    intro q method
    exact sound_of_other (by simp [acceptMethod]) (by simp [acceptMethod])
  unfold parseRequestLine
  split
  · exact sound_fail _ (by decide) _
  · split
    · exact sound_fail _ (by decide) _
    · dsimp only
      split_ifs
      · exact sound_fail _ (by decide) _
      · exact sound_fail _ (by decide) _
      · exact haccept _ _
      · exact haccept _ _
      · exact haccept _ _
      · exact haccept _ _
      · exact sound_fail _ (by decide) _

theorem sound_acceptLength (p : RequestParser) (cl : Nat) : Sound (acceptLength p cl).2 := by
  unfold acceptLength
  by_cases hlarge : cl > MAX_BODY_SIZE
  · rw [if_pos hlarge]
    exact sound_fail _ (by decide) _
  · rw [if_neg hlarge]
    by_cases hbody : p.request.method = .POST ∧ cl > 0
    · refine ⟨fun h => ?_, fun _ => ⟨hbody.1, Nat.le_of_not_lt hlarge⟩⟩
      simp [hbody] at h
    · exact sound_of_other (by simp [hbody]) (by simp [hbody])

theorem sound_endHeaders (p : RequestParser) : Sound (endHeaders p).2 := by
  unfold endHeaders
  split
  · exact sound_acceptLength p 0
  · split
    · exact sound_fail _ (by decide) _
    · split_ifs
      · exact sound_fail _ (by decide) _
      · exact sound_acceptLength p _

theorem sound_storeHeader {p : RequestParser} (hstate : p.state = .headers) (line : Bytes) :
    Sound (storeHeader p line).2 := by
  unfold storeHeader
  dsimp only
  split_ifs
  · exact sound_fail _ (by decide) _
  · exact sound_of_other (by simp [hstate]) (by simp [hstate])

theorem Sound.turn {p : RequestParser} (h : Sound p) : Sound p.turn.2 := by
  unfold RequestParser.turn
  cases hstate : p.state with
  | requestLine =>
      simp only [processRequestLine]
      cases cutLine p.buffer with
      | none =>
          dsimp only
          split_ifs
          · exact sound_fail _ (by decide) _
          · exact h
      | some cut => exact sound_parseRequestLine _ _
  | headers =>
      simp only [processHeaders]
      cases cutLine p.buffer with
      | none =>
          dsimp only
          split_ifs
          · exact sound_fail _ (by decide) _
          · exact h
      | some cut =>
          dsimp only
          split_ifs
          · exact sound_endHeaders _
          · exact sound_storeHeader (p := { p with buffer := cut.2 }) hstate cut.1
  | body =>
      simp only [processBody]
      split_ifs
      · exact sound_of_other (by simp) (by simp)
      · exact h
      · exact sound_of_other (by simp) (by simp)
  | done => exact h
  | error => exact h

/-! ## Waiting -/

structure Quiescent (p : RequestParser) : Prop where
  line : p.state = .requestLine ∨ p.state = .headers → LF ∉ p.buffer ∧ p.buffer.length ≤ 8192
  body : p.state = .body → p.request.method = .POST ∧
    p.buffer.length < p.bodyBytesRemaining ∧ p.bodyBytesRemaining ≤ 10 * 1024 * 1024
  error : p.state = .error → p.error ≠ .ok

theorem quiescent_of_error {p : RequestParser} (h : Sound p) (herror : p.state = .error) :
    Quiescent p where
  line hline := by rcases hline with hline | hline <;> cases herror.symm.trans hline
  body hbody := by cases herror.symm.trans hbody
  error _ := h.error herror

theorem quiescent_of_done {p : RequestParser} (hdone : p.state = .done) : Quiescent p where
  line hline := by rcases hline with hline | hline <;> cases hdone.symm.trans hline
  body hbody := by cases hdone.symm.trans hbody
  error herror := by cases hdone.symm.trans herror

theorem lf_not_mem_of_cutLine {buffer : Bytes} (h : cutLine buffer = none) : LF ∉ buffer := by
  rcases cutLine_cases buffer with ⟨hlf, -⟩ | ⟨raw, tail, -, -, hsome⟩
  · exact hlf
  · rw [hsome] at h
    cases h

/-- A turn without progress fails, or it changes nothing. -/
theorem turn_waits {p p' : RequestParser} (hturn : p.turn = (false, p')) :
    p'.state = .error ∨ p' = p := by
  have hout := turn_outcome p
  rw [hturn] at hout
  cases hout with
  | waits => exact .inr rfl
  | fails _ herror _ => exact .inl herror

theorem Ends.error_of_eq {q p : RequestParser} {next : List ParserState}
    {r : Bool × RequestParser} (hends : Ends q next r) (heq : r = (false, p)) :
    p.state = .error := by
  subst heq
  exact hends.not_waiting rfl

/-- What a turn without progress found, if it did not fail. -/
theorem turn_quiescent {p : RequestParser} (h : Sound p) (hturn : p.turn = (false, p))
    (herror : p.state ≠ .error) : Quiescent p := by
  refine ⟨fun hline => ?_, fun hbody => ?_, fun hstate => absurd hstate herror⟩
  · rcases hline with hstate | hstate
    · simp only [RequestParser.turn, hstate, processRequestLine] at hturn
      cases hcut : cutLine p.buffer with
      | none =>
          rw [hcut] at hturn
          refine ⟨lf_not_mem_of_cutLine hcut, Nat.le_of_not_lt fun hlong => herror ?_⟩
          have hfail : p.fail .badRequest "Request line too long" = (false, p) := by
            simpa [MAX_REQUEST_LINE, hlong] using hturn
          rw [← (Prod.mk.inj hfail).2]
      | some cut =>
          simp only [hcut] at hturn
          exact absurd ((parseRequestLine_ends _ _).error_of_eq hturn) herror
    · simp only [RequestParser.turn, hstate, processHeaders] at hturn
      cases hcut : cutLine p.buffer with
      | none =>
          rw [hcut] at hturn
          refine ⟨lf_not_mem_of_cutLine hcut, Nat.le_of_not_lt fun hlong => herror ?_⟩
          have hfail : p.fail .invalidHeader "Header line too long" = (false, p) := by
            simpa [MAX_HEADER_LINE, hlong] using hturn
          rw [← (Prod.mk.inj hfail).2]
      | some cut =>
          simp only [hcut] at hturn
          split_ifs at hturn
          · exact absurd ((endHeaders_ends _).error_of_eq hturn) herror
          · exact absurd ((storeHeader_ends _ _).error_of_eq hturn) herror
  · obtain ⟨hpost, hmax⟩ := h.body hbody
    simp only [RequestParser.turn, hbody, processBody] at hturn
    split_ifs at hturn with hzero hshort
    · cases (Prod.mk.inj hturn).1
    · exact ⟨hpost, hshort, hmax⟩
    · cases (Prod.mk.inj hturn).1

theorem Sound.quiescent_of_advances {p p' : RequestParser} (h : Sound p)
    (hadv : Advances p p') : Quiescent p' := by
  induction hadv with
  | stopped hstop =>
      rcases hstop with hdone | herror
      · exact quiescent_of_done hdone
      · exact quiescent_of_error h herror
  | @waits p p' hgo hturn =>
      have hsound := h.turn
      rw [hturn] at hsound
      rcases turn_waits hturn with herror | rfl
      · exact quiescent_of_error hsound herror
      · exact turn_quiescent hsound hturn fun herror => hgo (.inr herror)
  | @again p q p' hgo hturn hrest ih =>
      have hsound := h.turn
      rw [hturn] at hsound
      exact ih hsound

theorem Sound.of_advances {p p' : RequestParser} (h : Sound p) (hadv : Advances p p') :
    Sound p' := by
  induction hadv with
  | stopped => exact h
  | waits hgo hturn =>
      have hsound := h.turn
      rwa [hturn] at hsound
  | again hgo hturn hrest ih =>
      have hsound := h.turn
      rw [hturn] at hsound
      exact ih hsound

/-! ## Any sequence of calls -/

/-- A call with a read of any length; a request is taken only where there is one. -/
def anyCall (p : RequestParser) : ParserCall → Option RequestParser
  | .feed data => some (p.feed data)
  | .getRequest => if p.hasRequest then some p.getRequest.2 else none
  | .reset => some p.reset

def anyCalls : Machine RequestParser ParserCall where
  init p := p = {}
  step := anyCall

theorem sound_fresh (buffer : Bytes) : Sound { buffer := buffer } :=
  sound_of_other (by simp) (by simp)

theorem quiescent_fresh : Quiescent {} where
  line _ := ⟨by simp, Nat.zero_le _⟩
  body h := by cases h
  error h := by cases h

theorem anyCall_step {p p' : RequestParser} {c : ParserCall} (h : Sound p ∧ Quiescent p)
    (hcall : p.anyCall c = some p') : Sound p' ∧ Quiescent p' := by
  have hadvance : ∀ q : RequestParser, Sound q → Sound q.advance ∧ Quiescent q.advance := by
    intro q hq
    exact ⟨hq.of_advances (advances_advance q), hq.quiescent_of_advances (advances_advance q)⟩
  cases c with
  | feed data =>
      obtain rfl := Option.some.inj hcall
      unfold RequestParser.feed
      split_ifs with hstop
      · exact h
      · exact hadvance _ ⟨h.1.error, h.1.body⟩
  | getRequest =>
      simp only [anyCall] at hcall
      split_ifs at hcall
      obtain rfl := Option.some.inj hcall
      exact hadvance _ (sound_fresh p.buffer)
  | reset =>
      obtain rfl := Option.some.inj hcall
      exact ⟨sound_fresh [], quiescent_fresh⟩

theorem quiescent_of_reached {p : RequestParser} (h : anyCalls.Reached p) :
    Sound p ∧ Quiescent p := by
  change (fun p => Sound p ∧ Quiescent p) p
  apply h.invariant
  · intro q hinit
    obtain rfl : q = {} := hinit
    exact ⟨sound_fresh [], quiescent_fresh⟩
  · intro q c q' hinv _ hstep
    exact anyCall_step hinv hstep

/--
In every run of calls: `advance()` ends from every parser it is started on, each
of its turns that makes progress shortens the buffer or has the request, and
between two calls the parser is quiescent.
-/
theorem parser_quiescent :
    (∀ p : RequestParser, Advances p p.advance) ∧
      (∀ p q : RequestParser, p.turn = (true, q) →
        q.buffer.length < p.buffer.length ∨ q.state = .done) ∧
      ∀ p : RequestParser, anyCalls.Reached p → Quiescent p :=
  ⟨advances_advance, fun _ _ hturn => turn_progress hturn,
    fun _ hreached => (quiescent_of_reached hreached).2⟩

end CppHttpd.RequestParser
