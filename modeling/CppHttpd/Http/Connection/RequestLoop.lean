import CppHttpd.Http.Connection.ServedStream
import CppHttpd.Http.Connection.Transfer

/-!
# The loop around the requests of a connection

`handle_connection` waits for a request, does something about it, and waits for
the next one.  What it does is a parameter here, so that what holds of the loop
is shown once, whether or not responses are written, files opened or calls left
unanswered.
-/

namespace CppHttpd

open CppHttpd.Foundation

/-- What a thread does about a request, and about a stream that it cannot parse. -/
structure Service (W : Type*) where
  /-- `true` if the connection is kept. -/
  answer : W → HttpRequest → W × Bool
  refuse : W → ParseError → W

variable {W : Type*}

/-- The loop, with the parser that it is blocked in `read` with. -/
def requestLoop (service : Service W) :
    Nat → W → RequestParser → List ReadResult → W × Option RequestParser
  | 0, w, p, _ => (w, some p)
  | fuel + 1, w, p, reads =>
      let awaited :=
        if p.hasRequest then .complete p reads
        else if p.hasError then .refused p.error
        else awaitRequest p reads
      match awaited with
      | .closed => (w, none)
      | .blocked p => (w, some p)
      | .refused error => (service.refuse w error, none)
      | .complete p reads =>
          let (request, p) := p.getRequest
          let (w, keeps) := service.answer w request
          if keeps then requestLoop service fuel w p reads else (w, none)

/-- `handle_connection`; a turn of the loop but the last one uses up a read or a byte. -/
def runConnection (service : Service W) (w : W) (reads : List ReadResult) :
    W × Option RequestParser :=
  requestLoop service (reads.length + (reads.map ReadResult.size).sum + 1) w {} reads

/-! ## Its instances -/

/-- What `connectionThread` keeps of its past. -/
structure WritingWorld (W A : Type*) where
  world : W
  written : List (Written A) := []
  answers : List A
  waits : Bool := false

namespace WritingWorld

variable {A : Type*}

def wrote (w : WritingWorld W A) (written : Written A) : WritingWorld W A :=
  { w with written := w.written ++ [written], answers := written.rest, waits := written.waits }

def thread (w : WritingWorld W A) (blocked : Option RequestParser) : ConnectionThread W A where
  written := w.written
  world := w.world
  stage := if w.waits then .writing else blocked.elim .returned .reading
  rest := w.answers

end WritingWorld

section

variable {A : Type*} (h : Handler W) (write : ResponsePackage → List A → Written A)
  (clientIp : Bytes)

def writingService : Service (WritingWorld W A) where
  answer w request :=
    let (package, world) := processRequest h w.world clientIp request
    let written := write package w.answers
    ({ w with world }.wrote written, !written.waits && !package.closeAfter)
  refuse w error :=
    w.wrote (write { bytes := errorResponse h.iteration error, closeAfter := true } w.answers)

theorem writingService_answer (w : WritingWorld W A) (request : HttpRequest) :
    (writingService h write clientIp).answer w request =
      let processed := processRequest h w.world clientIp request
      let written := write processed.1 w.answers
      ({ w with world := processed.2 }.wrote written,
        !written.waits && !processed.1.closeAfter) := rfl

/-- The thread that has written `before` already. -/
def threadOf (before : List (Written A)) (thread : ConnectionThread W A) :
    ConnectionThread W A :=
  { thread with written := before ++ thread.written }

theorem threadLoop_eq (fuel : Nat) (w : WritingWorld W A) (hwaits : w.waits = false)
    (p : RequestParser) (reads : List ReadResult) :
    let ended := requestLoop (writingService h write clientIp) fuel w p reads
    threadOf w.written (threadLoop h write clientIp fuel w.world p reads w.answers) =
      ended.1.thread ended.2 := by
  induction fuel generalizing w p reads with
  | zero => simp [threadLoop, requestLoop, threadOf, WritingWorld.thread, hwaits]
  | succ fuel ih =>
      rw [threadLoop, requestLoop]
      generalize (if p.hasRequest then Awaited.complete p reads
        else if p.hasError then .refused p.error
        else awaitRequest p reads) = awaited
      cases awaited with
      | closed => simp [threadOf, WritingWorld.thread, hwaits]
      | blocked p => simp [threadOf, WritingWorld.thread, hwaits]
      | refused error =>
          simp [threadOf, WritingWorld.thread, WritingWorld.wrote, writingService]
      | complete p reads =>
          have hanswer := writingService_answer h write clientIp w p.getRequest.1
          simp only [hanswer]
          generalize processRequest h w.world clientIp p.getRequest.1 = processed
          obtain ⟨package, world⟩ := processed
          cases hnext : (write package w.answers).waits with
          | true => simp [threadOf, WritingWorld.thread, WritingWorld.wrote, hnext]
          | false =>
              have hlater := ih ({ w with world }.wrote (write package w.answers)) hnext
                p.getRequest.2 reads
              cases package.closeAfter with
              | true => simp [threadOf, WritingWorld.thread, WritingWorld.wrote, hnext]
              | false => simpa [threadOf, WritingWorld.wrote, hnext] using hlater

/-- A connection thread that writes is such a loop. -/
theorem connectionThread_eq (files : OpenFiles) (w : W) (reads : List ReadResult)
    (answers : List Answer) :
    let ended := runConnection (writingService h (writeResponse files) clientIp)
      { world := w, answers } reads
    connectionThread h files w clientIp reads answers = ended.1.thread ended.2 := by
  intro ended
  exact threadLoop_eq h (writeResponse files) clientIp
    (reads.length + (reads.map ReadResult.size).sum + 1) { world := w, answers } rfl {} reads

end

/-! ## What holds in every run -/

section

variable {service : Service W} {P Q : W → Prop} {I : RequestParser → Prop} {R : HttpRequest → Prop}

/-- What holds of a parser that is fed with the reads holds of it when it has a request. -/
theorem awaitRequest_keeps {p p' : RequestParser} {reads reads' : List ReadResult} (hp : I p)
    (hfeed : ∀ data p, .ok data ∈ reads → I p → I (p.feed data))
    (h : awaitRequest p reads = .complete p' reads') : I p' ∧ reads' ⊆ reads := by
  induction reads generalizing p with
  | nil => cases h
  | cons result reads ih =>
      have hlater : ∀ data p, .ok data ∈ reads → I p → I (p.feed data) := fun data p hmem =>
        hfeed data p (List.mem_cons_of_mem _ hmem)
      cases result with
      | ok data =>
          have hnext := hfeed data p List.mem_cons_self hp
          unfold awaitRequest at h
          dsimp only at h
          split_ifs at h
          · obtain ⟨rfl, rfl⟩ := Awaited.complete.inj h
            exact ⟨hnext, List.subset_cons_self _ _⟩
          · obtain ⟨hkept, hsubset⟩ := ih hnext hlater h
            exact ⟨hkept, List.Subset.trans hsubset (List.subset_cons_self _ _)⟩
      | interrupted =>
          obtain ⟨hkept, hsubset⟩ := ih hp hlater h
          exact ⟨hkept, List.Subset.trans hsubset (List.subset_cons_self _ _)⟩
      | again => cases h
      | failed => cases h

/--
`P` holds while the connection is kept, and `Q` of what is left at the end; the
parser keeps to `I`, and so the requests to `R`.
-/
theorem requestLoop_parsed (hparsed : ∀ p, I p → R p.request ∧ I p.getRequest.2)
    (hkeeps : ∀ w request, R request → P w → (service.answer w request).2 = true →
      P (service.answer w request).1)
    (hcloses : ∀ w request, R request → P w → (service.answer w request).2 = false →
      Q (service.answer w request).1)
    (hrefuse : ∀ w error, P w → Q (service.refuse w error)) (hend : ∀ w, P w → Q w)
    (fuel : Nat) {w : W} (hw : P w) {p : RequestParser} (hp : I p) {reads : List ReadResult}
    (hfeed : ∀ data p, .ok data ∈ reads → I p → I (p.feed data)) :
    Q (requestLoop service fuel w p reads).1 := by
  induction fuel generalizing w p reads with
  | zero => exact hend w hw
  | succ fuel ih =>
      have hawaited : ∀ p' reads', (if p.hasRequest then Awaited.complete p reads
          else if p.hasError then .refused p.error
          else awaitRequest p reads) = .complete p' reads' → I p' ∧ reads' ⊆ reads := by
        intro p' reads' h
        split_ifs at h
        · obtain ⟨rfl, rfl⟩ := Awaited.complete.inj h
          exact ⟨hp, List.Subset.refl _⟩
        · exact awaitRequest_keeps hp hfeed h
      rw [requestLoop]
      revert hawaited
      generalize (if p.hasRequest then Awaited.complete p reads
        else if p.hasError then .refused p.error
        else awaitRequest p reads) = awaited
      intro hawaited
      cases awaited with
      | closed => exact hend w hw
      | blocked p => exact hend w hw
      | refused error => exact hrefuse w error hw
      | complete p reads' =>
          obtain ⟨hp, hsubset⟩ := hawaited p reads' rfl
          obtain ⟨hrequest, hnext⟩ := hparsed p hp
          dsimp only
          split_ifs with hkept
          · exact ih (hkeeps w _ hrequest hw hkept) hnext fun data q hmem =>
              hfeed data q (hsubset hmem)
          · exact hcloses w _ hrequest hw (by simpa using hkept)

theorem runConnection_parsed (hparsed : ∀ p, I p → R p.request ∧ I p.getRequest.2)
    (hkeeps : ∀ w request, R request → P w → (service.answer w request).2 = true →
      P (service.answer w request).1)
    (hcloses : ∀ w request, R request → P w → (service.answer w request).2 = false →
      Q (service.answer w request).1)
    (hrefuse : ∀ w error, P w → Q (service.refuse w error)) (hend : ∀ w, P w → Q w)
    {w : W} (hw : P w) (hnew : I {}) {reads : List ReadResult}
    (hfeed : ∀ data p, .ok data ∈ reads → I p → I (p.feed data)) :
    Q (runConnection service w reads).1 :=
  requestLoop_parsed hparsed hkeeps hcloses hrefuse hend _ hw hnew hfeed

/-- Whatever the parser makes of the reads. -/
theorem runConnection_invariant
    (hkeeps : ∀ w request, P w → (service.answer w request).2 = true →
      P (service.answer w request).1)
    (hcloses : ∀ w request, P w → (service.answer w request).2 = false →
      Q (service.answer w request).1)
    (hrefuse : ∀ w error, P w → Q (service.refuse w error)) (hend : ∀ w, P w → Q w)
    {w : W} (hw : P w) (reads : List ReadResult) : Q (runConnection service w reads).1 :=
  runConnection_parsed (I := fun _ => True) (R := fun _ => True) (fun _ _ => ⟨trivial, trivial⟩)
    (fun w request _ => hkeeps w request) (fun w request _ => hcloses w request) hrefuse hend hw
    trivial fun _ _ _ _ => trivial

end

/-! ## What is served -/

/-- Answer the requests in turn, as long as the connection is kept. -/
def Service.answerAll (service : Service W) : W → List HttpRequest → W × Bool
  | w, [] => (w, true)
  | w, request :: requests =>
      let (w, keeps) := service.answer w request
      if keeps then service.answerAll w requests else (w, false)

theorem answerAll_cons (service : Service W) (w : W) (request : HttpRequest)
    (requests : List HttpRequest) :
    service.answerAll w (request :: requests) =
      if (service.answer w request).2 then service.answerAll (service.answer w request).1 requests
      else ((service.answer w request).1, false) := rfl

/-- Serve a stream whose one-shot parse is `parsed`. -/
def Service.serve (service : Service W) (w : W) (parsed : List HttpRequest × RequestParser) : W :=
  let (w, keeps) := service.answerAll w parsed.1
  if keeps ∧ parsed.2.state = .error then service.refuse w parsed.2.error else w

section

variable (service : Service W)

open RequestParser

theorem serve_cons (w : W) (request : HttpRequest)
    (parsed : List HttpRequest × RequestParser) :
    service.serve w (request :: parsed.1, parsed.2) =
      if (service.answer w request).2 then service.serve (service.answer w request).1 parsed
      else (service.answer w request).1 := by
  unfold Service.serve
  rw [answerAll_cons]
  cases (service.answer w request).2 with
  | true => rfl
  | false => simp

/-- Cut into whatever reads, the stream still to come is served as its one-shot parse says. -/
theorem requestLoop_serve (fuel : Nat) (w : W) {p : RequestParser} (hquiet : Quiet p)
    (reads : List Bytes) (hreads : ∀ data ∈ reads, data ≠ [])
    (hlines : LinesWithin (p.append reads.flatten)) (hfuel : work p reads < fuel) :
    requestLoop service fuel w p (untilEnd reads) =
      (service.serve w (p.ahead reads.flatten), none) := by
  induction fuel generalizing w p reads with
  | zero => omega
  | succ fuel ih =>
      have hawaited : AwaitOutcome p reads
          (if p.hasRequest then .complete p (untilEnd reads)
            else if p.hasError then .refused p.error
            else awaitRequest p (untilEnd reads)) := by
        split_ifs with hrequest herror
        · exact .complete (by simpa [hasRequest] using hrequest) rfl hlines hreads (le_refl _)
        · have herr : p.state = .error := by simpa [hasError] using herror
          exact .refused (ahead_error herr reads.flatten) herr rfl
        · exact awaitRequest_outcome reads hreads hquiet (by simpa [hasRequest] using hrequest)
            (by simpa [hasError] using herror) hlines
      rw [requestLoop]
      revert hawaited
      generalize (if p.hasRequest then Awaited.complete p (untilEnd reads)
        else if p.hasError then .refused p.error
        else awaitRequest p (untilEnd reads)) = awaited
      intro hawaited
      cases hawaited with
      | closed hahead hok =>
          rw [hahead]
          simp [Service.serve, Service.answerAll, hok]
      | refused hahead herr herror =>
          rw [hahead]
          simp [Service.serve, Service.answerAll, herr, herror]
      | @complete p' reads' hdone hahead hlines' hreads' hwork =>
          obtain ⟨htake, hlines''⟩ := ahead_done hdone hlines'
          have hnext : work p'.getRequest.2 reads' < fuel := by
            have := work_getRequest hdone reads'
            omega
          rw [← hahead, htake, serve_cons]
          change (if (service.answer w p'.request).2 then
            requestLoop service fuel (service.answer w p'.request).1 p'.getRequest.2
              (untilEnd reads')
            else ((service.answer w p'.request).1, none)) = _
          split_ifs with hkeeps
          · exact ih _ (advance_quiet p'.restart) reads' hreads' hlines'' hnext
          · rfl

/-- The requests of a stream are served one after the other, and the thread returns. -/
theorem runConnection_serve (w : W) (reads : List Bytes) (hreads : ∀ data ∈ reads, data ≠ [])
    (hlines : StreamLinesWithin reads.flatten) :
    runConnection service w (untilEnd reads) =
      (service.serve w (drive {} reads.flatten), none) := by
  have hnew : Quiet {} := .inr (by
    simp [consume, turn, processRequestLine, cutLine, findLineEnd, find])
  have hparse : drive {} reads.flatten = ahead {} reads.flatten := by
    rw [drive_eq_feed (by decide)]
    rfl
  have happ : ({} : RequestParser).append reads.flatten = { buffer := reads.flatten } := by
    simp [append]
  have hsize : ((untilEnd reads).map ReadResult.size).sum = reads.flatten.length := by
    simp [untilEnd, ReadResult.size, Function.comp_def, List.length_flatten]
  rw [runConnection, hparse]
  apply requestLoop_serve service _ w hnew reads hreads (happ ▸ hlines)
  rw [hsize]
  simp only [work, hasRequest, untilEnd, List.length_append, List.length_map]
  simp only [List.length_nil, List.length_singleton, reduceCtorEq, decide_false,
    Bool.false_eq_true, if_false]
  omega

end

end CppHttpd
