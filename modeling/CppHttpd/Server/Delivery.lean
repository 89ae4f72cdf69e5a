import CppHttpd.Http.Connection.ResponseReader
import CppHttpd.Http.Connection.ServingThread
import CppHttpd.Server.TlsAgreement

/-!
# From the handler to the client

The handler's responses go through headers, a file descriptor, partial writes and
the buffers of the kernel.  If no call on the socket fails, a client that knows
what it asked for reads the responses of the handler, one for each request that
the stream holds, and for a stream that is no HTTP the error response behind them.
-/

namespace CppHttpd

open CppHttpd.Foundation

/-! ## Transfers that succeed -/

section

variable {package : ResponsePackage} {answers : List Answer}

/-- A response that is sent without a failing call is sent as a whole. -/
theorem writeResponse_whole (content : Bytes)
    (hok : ∀ a ∈ answers, a.fails = false)
    (hwaits : (writeResponse (fun _ _ => { content := content }) package answers).waits = false) :
    (writeResponse (fun _ _ => { content := content }) package answers).bytes =
        package.bytes ++ package.bodyFd.elim [] (fun _ =>
          (content.drop package.bodyFdOffset.toNat).take package.bodyFdSize.toNat) ∧
      ∀ a ∈ (writeResponse (fun _ _ => { content := content }) package answers).rest,
        a.fails = false := by
  cases writeResponse_course (fun _ _ => { content := content }) package answers with
  | waits used hused hok' hsilent hincomplete hwaits' =>
      rw [hwaits] at hwaits'
      cases hwaits'
  | breaks before after a hused hok' hfails =>
      have hmem : a ∈ answers := hused ▸ by simp
      rw [hok a hmem] at hfails
      cases hfails
  | complete used hused hok' hsilent hcomplete hwaits' =>
      refine ⟨?_, fun a hmem => hok a (hused ▸ List.mem_append_right _ hmem)⟩
      rw [Written.bytes, hcomplete.head]
      congr 1
      have hlength := hcomplete.body
      have hhead : (writeAll package.bytes answers).waits = false := by
        simpa [Written.waits, writeResponse] using (Bool.or_eq_false_iff.1 hwaits').1
      revert hlength
      simp only [writeResponse, hhead, Bool.false_eq_true, if_false, Written.bodySize]
      cases package.bodyFd with
      | none => simp
      | some fd =>
          intro hlength
          exact eq_take_of_prefix (isPrefix_sendfileLoop (fun _ => { content }) fd
            (writeAll package.bytes answers).rest package.bodyFdOffset package.bodyFdSize) hlength

end

/-! ## What a reply puts on the connection -/

namespace Reply

/-- The response with the header that `process_request` adds. -/
def sent (reply : Reply) : HttpResponse :=
  reply.response.setHeader "Connection" (connectionValue reply.request)

def part (reply : Reply) : Bytes :=
  (reply.content.drop reply.response.bodyFdOffset.toNat).take reply.response.bodyFdSize.toNat

def transmission (reply : Reply) : Transmission where
  response := reply.sent
  payload := if reply.response.bodyFd.isSome then reply.part else reply.sent.bodyToBytes
  body := if reply.response.bodyFd.isSome then reply.part else reply.response.body

/-- A client can read it, and knows where the next response begins if there is one. -/
structure Understood (reply : Reply) : Prop where
  serialisable : Serialisable reply.sent
  framed : reply.transmission.Framed reply.request.method ∨
    wantsClose reply.request = true ∧ reply.transmission.Unframed reply.request.method

theorem package_bytes (it : HttpResponse.Iteration) (reply : Reply) :
    (reply.package it).bytes ++ (reply.package it).bodyFd.elim [] (fun _ =>
        (reply.content.drop (reply.package it).bodyFdOffset.toNat).take
          (reply.package it).bodyFdSize.toNat) =
      reply.transmission.bytes it := by
  unfold package packageResponse
  cases hfd : reply.response.bodyFd <;>
    simp [HttpResponse.setHeader, hfd, Transmission.bytes, transmission, sent, part,
      connectionValue, HttpResponse.toBytes, HttpResponse.headersToBytes]

end Reply

/-- The response to a stream that ends in an error. -/
def refusalTransmission (error : ParseError) : Transmission where
  response := (HttpResponse.ofStatus (if error = .payloadTooLarge then .PayloadTooLarge
    else .BadRequest)).setHeader "Connection" (ascii "close")
  payload := []
  body := []

/-- What is sent behind the replies, if every request wants the connection kept. -/
def refusals (parsed : List HttpRequest × RequestParser) : List Transmission :=
  if parsed.2.state = .error ∧ ∀ request ∈ parsed.1, wantsClose request = false then
    [refusalTransmission parsed.2.error]
  else []

theorem refusalTransmission_bytes (it : HttpResponse.Iteration) (error : ParseError) :
    (refusalTransmission error).bytes it = errorResponse it error := by
  have hbody : (refusalTransmission error).response.bodyToBytes = [] := by
    cases error <;> decide
  change _ = (refusalTransmission error).response.toBytes it
  rw [HttpResponse.toBytes, hbody]
  rfl

/-- Whatever the client had begun to ask for. -/
theorem refusalTransmission_readable (error : ParseError) (method : Method)
    (methods : List Method) : Readable (method :: methods) [refusalTransmission error] := by
  have hcode : ∀ code ∈ [StatusCode.PayloadTooLarge, .BadRequest],
      100 ≤ code.value ∧ code.value ≤ 999 := by decide
  have hserialisable : Serialisable (refusalTransmission error).response :=
    (serialisable_ofStatus (hcode _ (by split_ifs <;> simp))).setHeader (by decide)
      (cleanValue_of_forall (forall_mem_of_all (by decide)))
  cases hbody : hasNoBody method (refusalTransmission error).status with
  | true => exact .cons hserialisable (.bodiless hbody rfl rfl) (.nil methods)
  | false => exact .last methods hserialisable ⟨hbody, rfl, rfl⟩

/-! ## A turn of the thread -/

/-- What was written is the replies, and then `last`. -/
structure Delivered (it : HttpResponse.Iteration) (t : ServingThread)
    (last : List Transmission) : Prop where
  bytes : t.written.flatMap Written.bytes =
    (t.replies.map Reply.transmission ++ last).flatMap (Transmission.bytes it)
  answers : ∀ a ∈ t.answers, a.fails = false

section

variable {setting : ThreadSetting} {t : ServingThread}

theorem send_stage {files : OpenFiles} {package : ResponsePackage}
    (h : (t.send files package).stage = .serving) :
    (writeResponse files package t.answers).waits = false := by
  revert h
  simp only [ServingThread.send]
  split_ifs with hwaits
  · simp
  · simpa using hwaits

theorem Delivered.respond (h : Delivered setting.iteration t []) {os : OsState} {reply : Reply}
    (hserving : (t.respond setting.iteration os reply).stage = .serving) :
    Delivered setting.iteration (t.respond setting.iteration os reply) [] := by
  obtain ⟨hbytes, hrest⟩ := writeResponse_whole reply.content h.answers
    (send_stage hserving)
  rw [Reply.package_bytes] at hbytes
  change (writeResponse reply.files _ _).bytes = _ at hbytes
  refine ⟨?_, hrest⟩
  have hbefore := h.bytes
  simp only [List.append_nil] at hbefore
  simp only [ServingThread.respond, ServingThread.send, List.flatMap_append, List.map_append,
    List.append_nil, hbefore]
  congr 1
  simpa using hbytes

theorem Delivered.refuse (h : Delivered setting.iteration t []) {error : ParseError}
    (hserving : ((servingService setting).refuse t error).stage = .serving) :
    Delivered setting.iteration ((servingService setting).refuse t error)
      [refusalTransmission error] := by
  let package : ResponsePackage :=
    { bytes := errorResponse setting.iteration error, closeAfter := true }
  have hwaits : (writeResponse (fun _ _ => { content := [] }) package t.answers).waits = false :=
    send_stage hserving
  obtain ⟨hbytes, hrest⟩ := writeResponse_whole [] h.answers hwaits
  refine ⟨?_, hrest⟩
  have hbefore := h.bytes
  simp only [List.append_nil] at hbefore
  simp only [servingService, ServingThread.send, List.flatMap_append, hbefore]
  congr 1
  rw [List.flatMap_singleton, List.flatMap_singleton, refusalTransmission_bytes]
  simpa [package] using hbytes

theorem answerAll_serving (requests : List HttpRequest) (hserving : t.stage = .serving)
    (hkeeps : ((servingService setting).answerAll t requests).2 = true) :
    ((servingService setting).answerAll t requests).1.stage = .serving := by
  induction requests generalizing t with
  | nil => exact hserving
  | cons request requests ih =>
      have hout := answerRequest_outcome setting t request
      rw [answerAll_cons] at hkeeps ⊢
      change AnswerOutcome setting t request ((servingService setting).answer t request) at hout
      generalize (servingService setting).answer t request = turn at hout hkeeps ⊢
      cases hout with
      | stopped => cases hkeeps
      | @responded os reply keeps hrequest hhandled hcontent hopen howns hkept =>
          cases keeps with
          | true => exact ih (hkept.1 rfl).1 hkeeps
          | false => cases hkeeps

/-- Turn after turn, as long as the thread comes back from each of them. -/
theorem Delivered.answerAll (requests : List HttpRequest) {t : ServingThread}
    (h : Delivered setting.iteration t []) {ended : ServingThread} {keeps : Bool}
    (hended : (servingService setting).answerAll t requests = (ended, keeps))
    (hserving : ended.stage = .serving) :
    Delivered setting.iteration ended [] ∧
      ended.replies.map Reply.request = t.replies.map Reply.request ++ uptoClose requests ∧
      (keeps = true ↔ ∀ request ∈ requests, wantsClose request = false) := by
  induction requests generalizing t with
  | nil =>
      cases hended
      exact ⟨h, by simp [uptoClose], by simp⟩
  | cons request requests ih =>
      have hout := answerRequest_outcome setting t request
      rw [answerAll_cons] at hended
      change AnswerOutcome setting t request ((servingService setting).answer t request) at hout
      generalize (servingService setting).answer t request = turn at hout hended
      cases hout with
      | stopped =>
          cases hended
          cases hserving
      | @responded os reply kept hrequest hhandled hcontent hopen howns hkept =>
          have hreplies : (t.respond setting.iteration os reply).replies.map Reply.request =
              t.replies.map Reply.request ++ [request] := by
            simp [ServingThread.respond, ServingThread.send, hrequest]
          rw [uptoClose, List.forall_mem_cons]
          cases kept with
          | true =>
              obtain ⟨hnext, hopen⟩ := hkept.1 rfl
              obtain ⟨hdelivered, hrequests, hall⟩ := ih (h.respond hnext) hended
              refine ⟨hdelivered, ?_, ?_⟩
              · simp only [hrequests, hreplies, hopen, Bool.false_eq_true, if_false,
                  List.append_assoc, List.singleton_append]
              · simpa [hopen] using hall
          | false =>
              cases hended
              have hclose : wantsClose request = true := by
                simpa using fun hopen => Bool.false_ne_true (hkept.2 ⟨hserving, hopen⟩)
              refine ⟨h.respond hserving, ?_, ?_⟩
              · simp [hreplies, hclose]
              · simp [hclose]

end

/-! ## The whole connection -/

theorem readable_replies {replies : List Reply} (hunderstood : ∀ reply ∈ replies, reply.Understood)
    {requests : List HttpRequest} (hrequests : replies.map Reply.request = uptoClose requests)
    {methods : List Method} {last : List Transmission}
    (hlast : (∃ request ∈ requests, wantsClose request = true) → last = [])
    (hreadable : Readable methods last) :
    Readable (requests.map HttpRequest.method ++ methods)
      (replies.map Reply.transmission ++ last) := by
  induction requests generalizing replies with
  | nil =>
      rw [uptoClose, List.map_eq_nil_iff] at hrequests
      rw [hrequests]
      exact hreadable
  | cons request requests ih =>
      rw [uptoClose] at hrequests
      split_ifs at hrequests with hclose
      · obtain ⟨reply, rfl, rfl⟩ := List.map_eq_singleton_iff.1 hrequests
        obtain ⟨hserialisable, hframed⟩ := hunderstood reply (by simp)
        rw [hlast ⟨reply.request, by simp, hclose⟩]
        rcases hframed with hframed | ⟨-, hunframed⟩
        · exact .cons hserialisable hframed (.nil _)
        · exact .last _ hserialisable hunframed
      · obtain ⟨reply, later, rfl, rfl, hlater⟩ := List.map_eq_cons_iff.1 hrequests
        rw [List.forall_mem_cons] at hunderstood
        obtain ⟨⟨hserialisable, hframed⟩, hothers⟩ := hunderstood
        refine .cons hserialisable (hframed.resolve_right fun hlost => hclose hlost.1)
          (ih hothers hlater ?_)
        rintro ⟨other, hmem, hother⟩
        exact hlast ⟨other, List.mem_cons_of_mem _ hmem, hother⟩

section

variable (setting : ThreadSetting) (os : OsState) {reads : List Bytes}
  (hreads : ∀ data ∈ reads, data ≠ []) (hlines : RequestParser.StreamLinesWithin reads.flatten)

include hreads hlines

theorem serveConnection_eq (answers : List Answer) :
    serveConnection setting os (untilEnd reads) answers =
      (servingService setting).serve { os, answers } (RequestParser.drive {} reads.flatten) := by
  rw [serveConnection, runConnection_serve _ _ _ hreads hlines]

/-- The replies are those to the requests of the stream, and all of them are sent. -/
theorem serveConnection_delivered {answers : List Answer} (hanswers : ∀ a ∈ answers, a.fails = false)
    (hserving : (serveConnection setting os (untilEnd reads) answers).stage = .serving) :
    let parsed := RequestParser.drive {} reads.flatten
    let t := serveConnection setting os (untilEnd reads) answers
    t.replies.map Reply.request = uptoClose parsed.1 ∧
      Delivered setting.iteration t (refusals parsed) := by
  have hstart : Delivered setting.iteration { os, answers } [] := ⟨rfl, hanswers⟩
  have hrun := serveConnection_eq setting os hreads hlines answers
  intro parsed t
  change t = (servingService setting).serve { os, answers } parsed at hrun
  change t.stage = .serving at hserving
  obtain ⟨ended, keeps, hended⟩ : ∃ ended keeps,
      (servingService setting).answerAll { os, answers } parsed.1 = (ended, keeps) :=
    ⟨_, _, rfl⟩
  have hserves (hkeeps : ((servingService setting).answerAll { os, answers } parsed.1).2 = true) :
      ((servingService setting).answerAll { os, answers } parsed.1).1.stage = .serving :=
    answerAll_serving parsed.1 rfl hkeeps
  rw [hended] at hserves
  rw [Service.serve, hended] at hrun
  dsimp only at hserves hrun
  unfold refusals
  split_ifs at hrun with hrefused
  · obtain ⟨hkeeps, herror⟩ := hrefused
    obtain ⟨hbefore, hrequests, hkept⟩ := hstart.answerAll parsed.1 hended (hserves hkeeps)
    rw [if_pos ⟨herror, hkept.1 hkeeps⟩]
    rw [hrun] at hserving ⊢
    exact ⟨hrequests, hbefore.refuse hserving⟩
  · rw [hrun] at hserving ⊢
    obtain ⟨hbefore, hrequests, hkept⟩ := hstart.answerAll parsed.1 hended hserving
    rw [if_neg fun hkeeps => hrefused ⟨hkept.2 hkeeps.2, hkeeps.1⟩]
    exact ⟨hrequests, hbefore⟩

end

/--
Cut into whatever reads and written in whatever parts: what a client reads is the
response of the handler to each request of its stream, in their order, and then the
refusal of what is no request, whatever it had begun to ask for.
-/
theorem serveConnection_delivers (setting : ThreadSetting) (os : OsState) (reads : List Bytes)
    (hreads : ∀ data ∈ reads, data ≠ []) (hlines : RequestParser.StreamLinesWithin reads.flatten)
    (answers : List Answer) (hanswers : ∀ a ∈ answers, a.fails = false)
    (hserving : (serveConnection setting os (untilEnd reads) answers).stage = .serving)
    (hunderstood : ∀ reply ∈ (serveConnection setting os (untilEnd reads) answers).replies,
      reply.Understood)
    (method : Method) :
    let parsed := RequestParser.drive {} reads.flatten
    let t := serveConnection setting os (untilEnd reads) answers
    t.replies.map Reply.request = uptoClose parsed.1 ∧
      ∃ decoded, readResponses (parsed.1.map HttpRequest.method ++ [method])
          (t.written.flatMap Written.bytes) = some decoded ∧
        List.Forall₂ Transmission.ReadAs
          (t.replies.map Reply.transmission ++ refusals parsed) decoded := by
  obtain ⟨hrequests, hbytes, -⟩ :=
    serveConnection_delivered setting os hreads hlines hanswers hserving
  intro parsed t
  have hreadable : Readable (parsed.1.map HttpRequest.method ++ [method])
      (t.replies.map Reply.transmission ++ refusals parsed) := by
    apply readable_replies hunderstood hrequests
    · rintro ⟨request, hmem, hclose⟩
      refine if_neg fun ⟨_, hkept⟩ => ?_
      rw [hkept request hmem] at hclose
      cases hclose
    · unfold refusals
      split_ifs
      · exact refusalTransmission_readable _ _ _
      · exact .nil _
  rw [hbytes]
  exact ⟨hrequests, hreadable.readResponses setting.iteration⟩

/-- A server without hosts, and a request that comes in two pieces. -/
def hostless : ThreadSetting where
  config := {}
  env _ := .still (.flat []) fun _ => .forkFailed
  accepting _ := true
  clientIp := []
  iteration := .inOrder

theorem serveConnection_delivers_unavailable :
    let reads := [ascii "GET / HTTP/1.1\r\nConnection: close\r", ascii "\n\r\n"]
    let parsed := RequestParser.drive {} reads.flatten
    let t := serveConnection hostless {} (untilEnd reads) [.write (.ok 30), .write (.ok 25)]
    t.replies.map Reply.request = uptoClose parsed.1 ∧
      ∃ decoded, readResponses (parsed.1.map HttpRequest.method ++ [.GET])
          (t.written.flatMap Written.bytes) = some decoded ∧
        List.Forall₂ Transmission.ReadAs
          (t.replies.map Reply.transmission ++ refusals parsed) decoded := by
  refine serveConnection_delivers hostless {} _ (by decide)
    (RequestParser.linesWithin_of_length (by decide)) _ (by simp [Answer.fails]) rfl ?_ .GET
  have hreplies : ∃ request, (serveConnection hostless {}
      (untilEnd [ascii "GET / HTTP/1.1\r\nConnection: close\r", ascii "\n\r\n"])
      [.write (.ok 30), .write (.ok 25)]).replies =
        [⟨request, .ofStatus .ServiceUnavailable, []⟩] ∧ wantsClose request = true :=
    ⟨_, rfl, rfl⟩
  obtain ⟨request, hreplies, hclose⟩ := hreplies
  rw [hreplies, List.forall_mem_singleton]
  have hvalue : connectionValue request = ascii "close" := by simp [connectionValue, hclose]
  refine ⟨?_, ?_⟩
  · rw [Reply.sent, hvalue]
    exact (serialisable_ofStatus (by decide)).setHeader (by decide)
      (cleanValue_of_forall (forall_mem_of_all (by decide)))
  · cases hbody : hasNoBody request.method 503 with
    | true => exact .inl (.bodiless hbody rfl rfl)
    | false => exact .inr ⟨hclose, hbody, rfl, rfl⟩

end CppHttpd
