import CppHttpd.Http.Connection.ConnectionManager
import CppHttpd.Http.Core.ParserStream

/-!
# What a connection thread serves

`handle_connection` takes one request at a time and reads only when the parser
has none, so it never has the whole stream at hand.  Seen from outside it serves
the requests of the one-shot parse of the stream: the parser it holds together
with the unread rest of the stream always drains to the requests still to come.
-/

namespace CppHttpd

open CppHttpd.Foundation

variable {W : Type*}

/-! ## What is to be served -/

/-- The requests up to and including the first that wants the connection closed. -/
def uptoClose : List HttpRequest → List HttpRequest
  | [] => []
  | request :: requests =>
      if wantsClose request then [request] else request :: uptoClose requests

/-- `process_request` on each request in turn, each response written before the next. -/
def serveInOrder (h : Handler W) (clientIp : Bytes) : W → List HttpRequest → List Action × W
  | w, [] => ([], w)
  | w, request :: requests =>
      let (package, w) := processRequest h w clientIp request
      let (actions, w) := serveInOrder h clientIp w requests
      (.answered request package :: actions, w)

/-- The error response to a stream that ends in an error which the server comes to. -/
def refusal (h : Handler W) (requests : List HttpRequest) (final : RequestParser) :
    List Action :=
  if final.state = .error ∧ ∀ request ∈ requests, wantsClose request = false then
    [.refused (errorResponse h.iteration final.error)]
  else []

/-- A thread that serves a stream whose one-shot parse is `parsed`, and then returns. -/
def serves (h : Handler W) (clientIp : Bytes) (w : W)
    (parsed : List HttpRequest × RequestParser) : Served W :=
  let (actions, w) := serveInOrder h clientIp w (uptoClose parsed.1)
  { actions := actions ++ refusal h parsed.1 parsed.2, world := w, blocked := none }

def untilEnd (reads : List Bytes) : List ReadResult := reads.map .ok ++ [.ok []]

@[simp] theorem untilEnd_nil : untilEnd [] = [.ok []] := rfl

@[simp] theorem untilEnd_cons (data : Bytes) (reads : List Bytes) :
    untilEnd (data :: reads) = .ok data :: untilEnd reads := rfl

section

variable (h : Handler W) (clientIp : Bytes) (w : W)

theorem serves_error {final : RequestParser} (herr : final.state = .error) :
    serves h clientIp w ([], final) =
      ⟨[.refused (errorResponse h.iteration final.error)], w, none⟩ := by
  simp [serves, uptoClose, serveInOrder, refusal, herr]

theorem serves_end {final : RequestParser} (hok : final.state ≠ .error) :
    serves h clientIp w ([], final) = ⟨[], w, none⟩ := by
  simp [serves, uptoClose, serveInOrder, refusal, hok]

theorem serves_close {request : HttpRequest} (hclose : wantsClose request = true)
    (requests : List HttpRequest) (final : RequestParser) :
    serves h clientIp w (request :: requests, final) =
      ⟨[.answered request (processRequest h w clientIp request).1],
        (processRequest h w clientIp request).2, none⟩ := by
  simp [serves, uptoClose, serveInOrder, refusal, hclose]

theorem serves_keepAlive {request : HttpRequest} (hkeep : wantsClose request = false)
    (requests : List HttpRequest) (final : RequestParser) :
    serves h clientIp w (request :: requests, final) =
      let processed := processRequest h w clientIp request
      let rest := serves h clientIp processed.2 (requests, final)
      { rest with actions := .answered request processed.1 :: rest.actions } := by
  simp [serves, uptoClose, serveInOrder, refusal, hkeep]

end

/-! ## The stream still to be served -/

namespace RequestParser

/-- The requests, and the end, of what `p` holds followed by the unread bytes. -/
def ahead (p : RequestParser) (unread : Bytes) : List HttpRequest × RequestParser :=
  consumer.drain (p.append unread)

/-- `advance()` can be taken before the rest of the stream has arrived. -/
theorem ahead_advance {p : RequestParser} {unread : Bytes}
    (hlines : LinesWithin (p.append unread)) :
    p.advance.ahead unread = p.ahead unread ∧ LinesWithin (p.advance.append unread) := by
  have hsteps : consumer.Steps (p.append unread) [] (p.advance.append unread) :=
    linesWithin_stable.steps_append (advance_steps p) unread hlines
  refine ⟨?_, linesWithin_stable.ok_steps hsteps hlines⟩
  rw [ahead, ahead, hsteps.drain_eq]
  rfl

theorem ahead_feed {p : RequestParser} (hdone : p.state ≠ .done) (herr : p.state ≠ .error)
    {data unread : Bytes} (hlines : LinesWithin (p.append (data ++ unread))) :
    (p.feed data).ahead unread = p.ahead (data ++ unread) ∧
      LinesWithin ((p.feed data).append unread) := by
  have hfeed : p.feed data = (p.append data).advance := by
    simp [feed, hdone, herr, append]
  have hahead : (p.append data).ahead unread = p.ahead (data ++ unread) := by
    rw [ahead, ahead, append_append]
  rw [← append_append] at hlines
  rw [hfeed, ← hahead]
  exact ahead_advance hlines

theorem ahead_done {p : RequestParser} (hdone : p.state = .done) {unread : Bytes}
    (hlines : LinesWithin (p.append unread)) :
    p.ahead unread =
        (p.request :: (p.getRequest.2.ahead unread).1, (p.getRequest.2.ahead unread).2) ∧
      LinesWithin (p.getRequest.2.append unread) := by
  have hstep : consume (p.append unread) = some ([p.request], p.restart.append unread) :=
    consume_of_done hdone
  obtain ⟨hahead, hlines'⟩ := ahead_advance (linesWithin_stable.ok_step hlines hstep)
  refine ⟨?_, hlines'⟩
  change _ = (p.request :: (p.restart.advance.ahead unread).1,
    (p.restart.advance.ahead unread).2)
  rw [hahead, ahead, Consumer.drain_of_some (M := consumer) hstep]
  rfl

theorem ahead_error {p : RequestParser} (herr : p.state = .error) (unread : Bytes) :
    p.ahead unread = ([], p.append unread) :=
  Consumer.drain_of_none (M := consumer) (consume_of_error herr)

theorem feed_length (p : RequestParser) (data : Bytes) :
    (p.feed data).buffer.length ≤ p.buffer.length + data.length := by
  rw [feed]
  split_ifs
  · omega
  · have hlen := length_le_of_rank_le (advance_steps { p with buffer := p.buffer ++ data }).rank_le
    simpa using hlen

theorem feed_quiet {p : RequestParser} (hquiet : Quiet p) (data : Bytes) :
    Quiet (p.feed data) := by
  rw [feed]
  split_ifs
  · exact hquiet
  · exact advance_quiet _

end RequestParser

open RequestParser

def work (p : RequestParser) (reads : List Bytes) : Nat :=
  p.buffer.length + reads.length + reads.flatten.length + (if p.hasRequest then 1 else 0)

theorem work_getRequest {p : RequestParser} (hdone : p.state = .done) (reads : List Bytes) :
    work p.getRequest.2 reads < work p reads := by
  have hlen : p.restart.advance.buffer.length ≤ p.restart.buffer.length :=
    length_le_of_rank_le (advance_steps p.restart).rank_le
  change p.getRequest.2.buffer.length ≤ p.buffer.length at hlen
  by_cases hagain : p.getRequest.2.state = .done
  · have hlt := getRequest_length hagain
    simp only [work, hasRequest, hdone, hagain, decide_true, if_true]
    omega
  · simp only [work, hasRequest, hdone, hagain, decide_true, decide_false, if_true,
      Bool.false_eq_true, if_false]
    omega

/-- Waiting for a request neither loses nor reorders any of the stream. -/
inductive AwaitOutcome (p : RequestParser) (reads : List Bytes) : Awaited → Prop
  | complete {p' : RequestParser} {reads' : List Bytes}
      (hdone : p'.state = .done)
      (hahead : p'.ahead reads'.flatten = p.ahead reads.flatten)
      (hlines : LinesWithin (p'.append reads'.flatten))
      (hreads : ∀ data ∈ reads', data ≠ [])
      (hwork : work p' reads' ≤ work p reads) :
      AwaitOutcome p reads (.complete p' (untilEnd reads'))
  | refused {final : RequestParser} {error : ParseError}
      (hahead : p.ahead reads.flatten = ([], final)) (herr : final.state = .error)
      (herror : final.error = error) : AwaitOutcome p reads (.refused error)
  | closed {final : RequestParser}
      (hahead : p.ahead reads.flatten = ([], final)) (hok : final.state ≠ .error) :
      AwaitOutcome p reads .closed

theorem awaitRequest_outcome (reads : List Bytes) (hreads : ∀ data ∈ reads, data ≠ [])
    {p : RequestParser} (hquiet : Quiet p) (hdone : p.state ≠ .done)
    (herr : p.state ≠ .error) (hlines : LinesWithin (p.append reads.flatten)) :
    AwaitOutcome p reads (awaitRequest p (untilEnd reads)) := by
  induction reads generalizing p with
  | nil =>
      have hahead : p.ahead [] = ([], p) := by
        rw [ahead, append_nil, drain_of_quiet hquiet hdone]
      exact .closed hahead herr
  | cons data reads ih =>
      obtain ⟨hdata, hrest⟩ := List.forall_mem_cons.1 hreads
      rw [List.flatten_cons] at hlines
      obtain ⟨hahead, hlines'⟩ := ahead_feed hdone herr hlines
      have hquiet' := feed_quiet hquiet data
      have hlen := feed_length p data
      simp only [untilEnd_cons, awaitRequest, if_neg hdata]
      split_ifs with hrequest herror
      · have hdone' : (p.feed data).state = .done := by simpa [hasRequest] using hrequest
        refine .complete hdone' hahead hlines' hrest ?_
        simp only [work, hasRequest, hdone, hdone', decide_true, decide_false, if_true,
          Bool.false_eq_true, if_false, List.length_cons, List.flatten_cons, List.length_append]
        omega
      · have herr' : (p.feed data).state = .error := by simpa [hasError] using herror
        have hfinal : p.ahead (data :: reads).flatten =
            ([], (p.feed data).append reads.flatten) := by
          rw [List.flatten_cons, ← hahead, ahead_error herr']
        exact .refused hfinal herr' rfl
      · have hdone' : (p.feed data).state ≠ .done := by simpa [hasRequest] using hrequest
        have herr' : (p.feed data).state ≠ .error := by simpa [hasError] using herror
        have hwork : work (p.feed data) reads ≤ work p (data :: reads) := by
          simp only [work, hasRequest, hdone, hdone', decide_false, Bool.false_eq_true,
            if_false, List.length_cons, List.flatten_cons, List.length_append]
          omega
        have hout := ih hrest hquiet' hdone' herr' hlines'
        generalize awaitRequest (p.feed data) (untilEnd reads) = awaited at hout ⊢
        cases hout with
        | complete hd ha hl hr hw =>
            exact .complete hd (ha.trans hahead) hl hr (hw.trans hwork)
        | refused ha he hr => exact .refused (hahead.symm.trans ha) he hr
        | closed ha ho => exact .closed (hahead.symm.trans ha) ho

/-! ## The loop -/

theorem connectionLoop_serves (h : Handler W) (clientIp : Bytes) (fuel : Nat) (w : W)
    {p : RequestParser} (hquiet : Quiet p) (reads : List Bytes)
    (hreads : ∀ data ∈ reads, data ≠ []) (hlines : LinesWithin (p.append reads.flatten))
    (hfuel : work p reads < fuel) :
    connectionLoop h clientIp fuel w p (untilEnd reads) =
      serves h clientIp w (p.ahead reads.flatten) := by
  induction fuel generalizing w p reads with
  | zero => omega
  | succ fuel ih =>
      have hawaited : AwaitOutcome p reads
          (if p.hasRequest then .complete p (untilEnd reads)
            else if p.hasError then .refused p.error
            else awaitRequest p (untilEnd reads)) := by
        split_ifs with hrequest herror
        · exact .complete (by simpa [hasRequest] using hrequest) rfl hlines hreads (le_refl _)
        · have herr : p.state = .error := by simpa [hasError] using herror
          exact .refused (ahead_error herr reads.flatten) herr rfl
        · exact awaitRequest_outcome reads hreads hquiet (by simpa [hasRequest] using hrequest)
            (by simpa [hasError] using herror) hlines
      rw [connectionLoop]
      revert hawaited
      generalize (if p.hasRequest then Awaited.complete p (untilEnd reads)
        else if p.hasError then .refused p.error
        else awaitRequest p (untilEnd reads)) = awaited
      intro hawaited
      cases hawaited with
      | closed hahead hok => rw [hahead, serves_end h clientIp w hok]
      | refused hahead herr herror =>
          rw [hahead, serves_error h clientIp w herr, herror]
      | @complete p' reads' hdone hahead hlines' hreads' hwork =>
          obtain ⟨htake, hlines''⟩ := ahead_done hdone hlines'
          rw [← hahead, htake]
          let processed := processRequest h w clientIp p'.request
          let rest := connectionLoop h clientIp fuel processed.2 p'.getRequest.2
            (untilEnd reads')
          change (if processed.1.closeAfter then
            ⟨[.answered p'.request processed.1], processed.2, none⟩
            else { rest with actions := .answered p'.request processed.1 :: rest.actions }) =
              (_ : Served W)
          rw [processRequest_closeAfter]
          by_cases hclose : wantsClose p'.request = true
          · rw [if_pos hclose, serves_close h clientIp w hclose]
          · simp only [Bool.not_eq_true] at hclose
            have hnext : work p'.getRequest.2 reads' < fuel := by
              have := work_getRequest hdone reads'
              omega
            have hrest : rest = serves h clientIp processed.2
                (p'.getRequest.2.ahead reads'.flatten) :=
              ih _ (advance_quiet p'.restart) reads' hreads' hlines'' hnext
            rw [if_neg (by simp [hclose]), hrest, serves_keepAlive h clientIp w hclose]

/--
Cut into whatever non-empty reads, a stream is served as its one-shot parse says,
and the thread returns.
-/
theorem handleConnection_serves (h : Handler W) (clientIp : Bytes) (w : W)
    (reads : List Bytes) (hreads : ∀ data ∈ reads, data ≠ [])
    (hlines : StreamLinesWithin reads.flatten) :
    handleConnection h w clientIp (untilEnd reads) =
      serves h clientIp w (drive {} reads.flatten) := by
  have hnew : Quiet {} := .inr (by
    simp [consume, turn, processRequestLine, cutLine, findLineEnd, find])
  have hparse : drive {} reads.flatten = ahead {} reads.flatten := by
    rw [drive_eq_feed (by decide)]
    rfl
  have happ : ({} : RequestParser).append reads.flatten = { buffer := reads.flatten } := by
    simp [append]
  have hsize : ((untilEnd reads).map ReadResult.size).sum = reads.flatten.length := by
    simp [untilEnd, ReadResult.size, Function.comp_def, List.length_flatten]
  rw [handleConnection, hparse]
  apply connectionLoop_serves h clientIp _ w hnew reads hreads (happ ▸ hlines)
  rw [hsize]
  simp only [work, hasRequest, untilEnd, List.length_append, List.length_map]
  simp only [List.length_nil, List.length_singleton, reduceCtorEq, decide_false,
    Bool.false_eq_true, if_false]
  omega

/-- Two pipelined requests, cut inside a terminator; the second wants the end. -/
theorem handleConnection_serves_pipelined :
    let h : Handler Unit :=
      { handle := fun _ _ _ _ => (HttpResponse.ofStatus StatusCode.Ok, ())
        accepting := fun _ => true
        iteration := .inOrder }
    let first := ascii "GET / HTTP/1.1\r"
    let second := ascii "\n\r\nGET /last HTTP/1.1\nConnection: Close\n\nGET /"
    handleConnection h () [] (untilEnd [first, second]) =
      serves h [] () (drive {} [first, second].flatten) :=
  handleConnection_serves _ _ _ _ (by decide) (linesWithin_of_length (by decide))

end CppHttpd
