import CppHttpd.Foundation.Incremental
import CppHttpd.Http.Core.ParserStep

/-!
# The parser on a stream

A driver feeds the parser with one read after the other and takes every
complete request.  Seen from outside it is an incremental consumer that emits
requests; one step of it is either one turn of `advance()` or the delivery of
one request by `get_request()`.
-/

namespace CppHttpd.RequestParser

open CppHttpd.Foundation

/-! ## The parser as a consumer -/

def weight : ParserState → Nat
  | .error => 0
  | .requestLine => 1
  | .headers => 1
  | .done => 2
  | .body => 3

def rank (p : RequestParser) : Nat := 4 * p.buffer.length + weight p.state

/-- Deliver the complete request, or else take a turn. -/
def consume (p : RequestParser) : Option (List HttpRequest × RequestParser) :=
  if p.state = .done then some ([p.request], p.restart)
  else if p.turn.1 = true ∨ (p.state ≠ .error ∧ p.turn.2.state = .error) then
    some ([], p.turn.2)
  else none

theorem rank_turn {p : RequestParser} (hdone : p.state ≠ .done)
    (h : p.turn.1 = true ∨ (p.state ≠ .error ∧ p.turn.2.state = .error)) :
    rank p.turn.2 < rank p := by
  have hout := turn_outcome p
  generalize p.turn = r at hout h ⊢
  cases hout with
  | waits => simp at h
  | @fails p' hne herr hlen =>
      have hw : weight p'.state = 0 := by rw [herr]; rfl
      have hp : 0 < weight p.state := by
        cases hs : p.state <;> simp_all [weight]
      simp only [rank]
      omega
  | @consumes p' hne _ hlt =>
      have hw : weight p'.state ≤ 3 := by
        cases p'.state <;> simp [weight]
      simp only [rank]
      omega
  | @finishes p' hbody hfin hlen =>
      simp only [rank, hbody, hfin, weight]
      omega

theorem rank_consume {p p' : RequestParser} {os : List HttpRequest}
    (h : consume p = some (os, p')) : rank p' < rank p := by
  unfold consume at h
  split_ifs at h with hdone hmoves
  · cases h
    simp [rank, restart, hdone, weight]
  · cases h
    exact rank_turn hdone hmoves

def consumer : Consumer RequestParser Byte HttpRequest where
  append := append
  append_nil := append_nil
  append_append := append_append
  step := consume
  rank := rank
  rank_lt := rank_consume

@[simp] theorem consumer_step (p : RequestParser) : consumer.step p = consume p := rfl

@[simp] theorem consumer_append (p : RequestParser) (xs : Bytes) :
    consumer.append p xs = p.append xs := rfl

theorem steps_of_consume {p p' : RequestParser} {os : List HttpRequest}
    (h : consume p = some (os, p')) : consumer.Steps p os p' :=
  .single h

/-- No line the parser comes to, on the stream it holds, exceeds its limit. -/
def LinesWithin (p : RequestParser) : Prop :=
  ∀ q, consumer.Reaches p q → LineWithin q

theorem consume_append {p p' : RequestParser} {os : List HttpRequest} (xs : Bytes)
    (hline : LineWithin (p.append xs)) (h : consume p = some (os, p')) :
    consume (p.append xs) = some (os, p'.append xs) := by
  unfold consume at h ⊢
  rw [append_state]
  split_ifs at h with hdone hmoves
  · cases h
    rw [if_pos hdone]
    rfl
  · cases h
    have hturn := turn_append hline (hmoves.imp id And.right)
    rw [if_neg hdone, if_pos (by simpa [hturn] using hmoves), hturn]

theorem linesWithin_stable : consumer.StableOn LinesWithin where
  ok_step hok hstep := fun q hq => hok q ((Consumer.Reaches.of_step hstep).trans hq)
  step_append xs hok hstep := consume_append xs (hok _ (.refl _)) hstep

theorem length_le_of_rank_le {p q : RequestParser} (h : rank q ≤ rank p) :
    q.buffer.length ≤ p.buffer.length := by
  have hw : weight p.state ≤ 3 := by cases p.state <;> simp [weight]
  simp only [rank] at h
  omega

theorem linesWithin_of_length {p : RequestParser} (h : p.buffer.length ≤ 8192) :
    LinesWithin p := by
  rintro q ⟨os, hsteps⟩
  have hline : (currentLine q.buffer).length ≤ 8192 :=
    calc (currentLine q.buffer).length
        ≤ q.buffer.length := (List.takeWhile_sublist _).length_le
      _ ≤ p.buffer.length := length_le_of_rank_le hsteps.rank_le
      _ ≤ 8192 := h
  exact ⟨fun _ => hline, fun _ => hline⟩

/-! ## `advance()` and `get_request()` as steps -/

theorem consume_of_done {p : RequestParser} (h : p.state = .done) :
    consume p = some ([p.request], p.restart) := if_pos h

theorem consume_of_error {p : RequestParser} (h : p.state = .error) :
    consume p = none := by
  have hturn : p.turn = (false, p) := by simp [turn, h]
  simp [consume, h, hturn]

/-- Nothing is left to do for the loop of `advance()`. -/
def Quiet (p : RequestParser) : Prop := p.state = .done ∨ consume p = none

theorem advanceLoop_steps (fuel : Nat) (p : RequestParser) :
    consumer.Steps p [] (advanceLoop fuel p) := by
  induction fuel generalizing p with
  | zero => exact .refl p
  | succ fuel ih =>
      rw [advanceLoop]
      split_ifs with hstop
      · exact .refl p
      · simp only [not_or] at hstop
        have hout := turn_outcome p
        have hconsume : ∀ r, p.turn = r →
            (r.1 = true ∨ r.2.state = .error) → consume p = some ([], r.2) := by
          rintro r rfl hr
          simp [consume, hstop.1, hstop.2, hr]
        cases hturn : p.turn with
        | mk progress p' =>
            rw [hturn] at hout
            cases hout with
            | waits => exact .refl p
            | fails _ herr _ =>
                simpa using Consumer.Steps.single (M := consumer)
                  (hconsume _ hturn (.inr herr))
            | consumes _ _ _ =>
                simpa using Consumer.Steps.next (M := consumer)
                  (hconsume _ hturn (.inl rfl)) (ih p')
            | finishes _ _ _ =>
                simpa using Consumer.Steps.next (M := consumer)
                  (hconsume _ hturn (.inl rfl)) (ih p')

theorem advance_steps (p : RequestParser) : consumer.Steps p [] p.advance :=
  advanceLoop_steps _ p

theorem advanceLoop_of_stopped {p : RequestParser}
    (h : p.state = .done ∨ p.state = .error) (fuel : Nat) : advanceLoop fuel p = p := by
  cases fuel with
  | zero => rfl
  | succ fuel => rw [advanceLoop, if_pos h]

/-- The fuel of `advance` suffices: the loop ends by its own condition. -/
theorem advanceLoop_quiet (fuel : Nat) (p : RequestParser)
    (hfuel : p.buffer.length < fuel) : Quiet (advanceLoop fuel p) := by
  induction fuel generalizing p with
  | zero => omega
  | succ fuel ih =>
      rw [advanceLoop]
      split_ifs with hstop
      · rcases hstop with hdone | herr
        · exact .inl hdone
        · exact .inr (consume_of_error herr)
      · simp only [not_or] at hstop
        have hout := turn_outcome p
        cases hturn : p.turn with
        | mk progress p' =>
            rw [hturn] at hout
            cases hout with
            | waits => exact .inr (by simp [consume, hstop.1, hstop.2, hturn])
            | fails _ herr _ => exact .inr (consume_of_error herr)
            | consumes _ _ hlt => exact ih p' (by omega)
            | finishes _ hdone _ =>
                dsimp only
                rw [advanceLoop_of_stopped (.inl hdone)]
                exact .inl hdone

theorem advance_quiet (p : RequestParser) : Quiet p.advance :=
  advanceLoop_quiet _ p (Nat.lt_succ_self _)

theorem Quiet.eq_of_silent {p q : RequestParser} (hquiet : Quiet p)
    (h : consumer.Steps p [] q) : p = q := by
  generalize hos : ([] : List HttpRequest) = os at h
  cases h with
  | refl => rfl
  | next hstep _ =>
      rw [consumer_step] at hstep
      rcases hquiet with hdone | hnone
      · rw [consume_of_done hdone] at hstep
        cases hstep
        simp at hos
      · rw [hnone] at hstep
        cases hstep

/-- `advance()` goes exactly as far as silent steps lead. -/
theorem advance_eq_of_steps {p q : RequestParser} (h : consumer.Steps p [] q)
    (hquiet : Quiet q) : p.advance = q := by
  rcases (advance_steps p).comparable h with ⟨more, hmore, hnil⟩ | ⟨more, hmore, hnil⟩
  · obtain rfl : more = [] := by simpa using hnil.symm
    exact (advance_quiet p).eq_of_silent hmore
  · obtain rfl : more = [] := by simpa using hnil.symm
    exact (hquiet.eq_of_silent hmore).symm

theorem drain_of_quiet {p : RequestParser} (h : Quiet p) (hdone : p.state ≠ .done) :
    consumer.drain p = ([], p) :=
  Consumer.drain_of_none (h.resolve_left hdone)

theorem drain_advance (p : RequestParser) :
    consumer.drain p.advance = consumer.drain p := by
  rw [(advance_steps p).drain_eq]
  simp

theorem drain_of_done {p : RequestParser} (h : p.state = .done) :
    consumer.drain p =
      (p.request :: (consumer.drain p.getRequest.2).1,
        (consumer.drain p.getRequest.2).2) := by
  rw [Consumer.drain_of_some (M := consumer) (consume_of_done h), getRequest,
    drain_advance]
  rfl

theorem feed_fresh (data : Bytes) : feed {} data = advance { buffer := data } := by
  simp [feed]

/-- Behind a delivered request the parser is as a new one fed with what is left. -/
theorem getRequest_eq_feed (p : RequestParser) :
    p.getRequest.2 = feed {} p.buffer := by
  rw [feed_fresh]
  rfl

theorem advanceLoop_state_ne (fuel : Nat) {p : RequestParser}
    (hstart : p.state ≠ .requestLine) : (advanceLoop fuel p).state ≠ .requestLine := by
  induction fuel generalizing p with
  | zero => exact hstart
  | succ fuel ih =>
      rw [advanceLoop]
      split_ifs
      · exact hstart
      · have hout := turn_outcome p
        cases hturn : p.turn with
        | mk progress p' =>
            rw [hturn] at hout
            cases hout with
            | waits => exact hstart
            | fails _ herr _ => simp [herr]
            | consumes _ hne _ => exact ih hne
            | finishes _ hdone _ => exact ih (by simp [hdone])

theorem advance_fresh_ne {data : Bytes} (hdata : data ≠ []) :
    advance { buffer := data } ≠ {} := by
  have hout := turn_outcome { buffer := data }
  rw [advance, advanceLoop, if_neg (by simp)]
  cases hturn : turn { buffer := data } with
  | mk progress p' =>
      rw [hturn] at hout
      cases hout with
      | waits =>
          intro heq
          exact hdata (congrArg RequestParser.buffer heq)
      | fails _ herr _ =>
          intro heq
          simp [heq] at herr
      | consumes _ hne _ =>
          intro heq
          exact advanceLoop_state_ne _ hne (congrArg RequestParser.state heq)
      | finishes hbody _ _ => simp at hbody

/-! ## The driver -/

/-- `while (has_request()) get_request()`. -/
def takeRequests : Nat → RequestParser → List HttpRequest × RequestParser
  | 0, p => ([], p)
  | fuel + 1, p =>
      if p.hasRequest then
        let (request, p') := p.getRequest
        let (requests, p'') := takeRequests fuel p'
        (request :: requests, p'')
      else ([], p)

/-- Feed one read and take the requests it completes. -/
def drive (p : RequestParser) (data : Bytes) : List HttpRequest × RequestParser :=
  let p := p.feed data
  takeRequests (p.buffer.length + 1) p

def driveAll : RequestParser → List Bytes → List HttpRequest × RequestParser
  | p, [] => ([], p)
  | p, data :: reads =>
      let (requests, p') := p.drive data
      let (requests', p'') := driveAll p' reads
      (requests ++ requests', p'')

theorem getRequest_length {p : RequestParser} (hdone : p.getRequest.2.state = .done) :
    p.getRequest.2.buffer.length < p.buffer.length := by
  have hrank := (advance_steps p.restart).rank_le
  change rank p.getRequest.2 ≤ rank p.restart at hrank
  simp only [rank, hdone, restart, weight] at hrank
  omega

theorem takeRequests_eq_drain (fuel : Nat) {p : RequestParser} (hquiet : Quiet p)
    (hfuel : p.state = .done → p.buffer.length < fuel) :
    takeRequests fuel p = consumer.drain p := by
  induction fuel generalizing p with
  | zero =>
      have hne : p.state ≠ .done := fun h => by simpa using hfuel h
      rw [takeRequests, drain_of_quiet hquiet hne]
  | succ fuel ih =>
      by_cases hdone : p.state = .done
      · have hrest := ih (p := p.getRequest.2) (advance_quiet _) (fun h => by
          have := getRequest_length h
          have := hfuel hdone
          omega)
        rw [drain_of_done hdone]
        simp only [takeRequests, hasRequest, hdone, decide_true, if_true, hrest]
        rfl
      · rw [takeRequests, drain_of_quiet hquiet hdone, if_neg (by simpa [hasRequest] using hdone)]

theorem drive_eq_feed {p : RequestParser} (hdone : p.state ≠ .done) (data : Bytes) :
    p.drive data = consumer.feed (fun p => p.state = .error) p data := by
  by_cases herr : p.state = .error
  · have hfeed : p.feed data = p := by simp [feed, herr]
    simp [drive, hfeed, Consumer.feed, herr, takeRequests, hasRequest]
  · have hfeed : p.feed data = (p.append data).advance := by
      simp [feed, herr, hdone, append]
    rw [drive, hfeed, Consumer.feed, if_neg herr]
    rw [takeRequests_eq_drain _ (advance_quiet _) (fun _ => Nat.lt_succ_self _),
      drain_advance]
    rfl

theorem drain_state_ne_done (p : RequestParser) : (consumer.drain p).2.state ≠ .done := by
  intro h
  have hnone := consumer.drain_step_eq_none p
  change consume _ = none at hnone
  rw [consume_of_done h] at hnone
  cases hnone

theorem driveAll_eq_feedAll {p : RequestParser} (hdone : p.state ≠ .done)
    (reads : List Bytes) :
    p.driveAll reads = consumer.feedAll (fun p => p.state = .error) p reads := by
  induction reads generalizing p with
  | nil => rfl
  | cons data reads ih =>
      have hnext : (p.drive data).2.state ≠ .done := by
        rw [drive_eq_feed hdone, Consumer.feed]
        split_ifs
        · exact hdone
        · exact drain_state_ne_done _
      rw [Consumer.feedAll, ← drive_eq_feed hdone]
      change ((p.drive data).1 ++ ((p.drive data).2.driveAll reads).1,
        ((p.drive data).2.driveAll reads).2) = _
      rw [ih hnext]

/-! ## The cuts cannot be observed -/

inductive Outcome where
  | failed (error : ParseError)
  | waiting (state : ParserState) (request : HttpRequest)
      (bodyBytesRemaining : Nat) (buffer : Bytes)

def outcome (p : RequestParser) : Outcome :=
  if p.state = .error then .failed p.error
  else .waiting p.state p.request p.bodyBytesRemaining p.buffer

/-- No line of the stream that a new parser comes to exceeds its limit. -/
def StreamLinesWithin (stream : Bytes) : Prop := LinesWithin { buffer := stream }

theorem consume_fresh : consume {} = none := by
  simp [consume, turn, processRequestLine, cutLine, findLineEnd, find]

theorem driveAll_eq_drain (reads : List Bytes)
    (hlines : StreamLinesWithin reads.flatten) :
    (driveAll {} reads).1 = (consumer.drain { buffer := reads.flatten }).1 ∧
      outcome (driveAll {} reads).2 =
        outcome (consumer.drain { buffer := reads.flatten }).2 := by
  have happ : ({} : RequestParser).append reads.flatten = { buffer := reads.flatten } := by
    simp [append]
  rw [driveAll_eq_feedAll (by decide), ← happ]
  refine linesWithin_stable.feedAll_eq_drain (fun xs h => ?_) (fun xs h => ?_) reads consume_fresh ?_
  · exact consume_of_error h
  · simp only [outcome]
    change (if (append _ xs).state = .error then _ else _) = _
    simp [h]
    rfl
  · change LinesWithin (append _ _)
    rw [happ]
    exact hlines

theorem driveAll_chunking_independent (reads reads' : List Bytes)
    (hsame : reads.flatten = reads'.flatten)
    (hlines : StreamLinesWithin reads.flatten) :
    (driveAll {} reads).1 = (driveAll {} reads').1 ∧
      outcome (driveAll {} reads).2 = outcome (driveAll {} reads').2 := by
  obtain ⟨hout, hobs⟩ := driveAll_eq_drain reads hlines
  obtain ⟨hout', hobs'⟩ := driveAll_eq_drain reads' (hsame ▸ hlines)
  rw [hout, hout', hobs, hobs', hsame]
  exact ⟨rfl, rfl⟩

/-- The cut falls between the two bytes of a line terminator. -/
theorem driveAll_chunking_independent_crlf :
    let first := ascii "GET /split HTTP/1.1\r"
    let second := ascii "\nHost: localhost\r\n\r\nHEAD /"
    (driveAll {} [first, second]).1 = (driveAll {} [first ++ second]).1 ∧
      outcome (driveAll {} [first, second]).2 =
        outcome (driveAll {} [first ++ second]).2 :=
  driveAll_chunking_independent _ _ (by decide) (linesWithin_of_length (by decide))

end CppHttpd.RequestParser
