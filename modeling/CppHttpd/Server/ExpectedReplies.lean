import CppHttpd.Http.Core.RoundTrip
import CppHttpd.Server.Delivery

/-!
# What a client may expect

If the handler comes to an expected reply from whatever state it begins in, then a
client that writes its requests reads the expected replies, however the requests
and the replies are cut up on their way.
-/

namespace CppHttpd

open CppHttpd.Foundation

/-- Every reply is what the handler returned for it, where it found the files as they were then. -/
def RepliesHandled (setting : ThreadSetting) (t : ServingThread) : Prop :=
  ∀ k reply, t.replies[k]? = some reply → ∃ s os,
    handle (setting.env k) setting.config reply.request (setting.accepting k)
      setting.clientRemoteAddr s = (.ok reply.response, os) ∧
    reply.content = openedContent (setting.env k).fs os

theorem serveConnection_handled (setting : ThreadSetting) (os : OsState)
    (reads : List ReadResult) (answers : List Answer) :
    RepliesHandled setting (serveConnection setting os reads answers) := by
  have hanswer : ∀ t request, RepliesHandled setting t →
      RepliesHandled setting (answerRequest setting t request).1 := by
    intro t request h
    have hout := answerRequest_outcome setting t request
    generalize answerRequest setting t request = turn at hout ⊢
    cases hout with
    | stopped => exact h
    | @responded os reply keeps hrequest hhandled hcontent hopen howns hkeeps =>
        intro k reply' hreply'
        have happend : (t.replies ++ [reply])[k]? = some reply' := hreply'
        rw [List.getElem?_append] at happend
        split_ifs at happend with hk
        · exact h k reply' happend
        · rw [List.getElem?_singleton] at happend
          split_ifs at happend with hzero
          cases happend
          obtain rfl : k = t.replies.length := by omega
          exact ⟨t.os, os, hrequest ▸ hhandled, hcontent⟩
  exact runConnection_invariant (P := RepliesHandled setting)
    (fun t request h _ => hanswer t request h) (fun t request h _ => hanswer t request h)
    (fun t error h => h) (fun t h => h) (fun k reply hnone => by simp at hnone) reads

/-- From whatever state the handler begins, it comes to such a reply. -/
def Expects (setting : ThreadSetting) (k : Nat) (request : HttpRequest) (expected : Reply → Prop) :
    Prop :=
  ∀ s, ∃ response os,
    handle (setting.env k) setting.config request (setting.accepting k)
      setting.clientRemoteAddr s = (.ok response, os) ∧
    expected ⟨request, response, openedContent (setting.env k).fs os⟩

/-- The handler returns. -/
theorem answerAll_not_stopped (setting : ThreadSetting) {expected : Nat → Reply → Prop}
    (requests : List HttpRequest) {t : ServingThread} (hstage : ∀ e, t.stage ≠ .stopped e)
    (hexpects : ∀ k request, requests[k]? = some request →
      Expects setting (t.replies.length + k) request (expected (t.replies.length + k))) :
    ∀ e, ((servingService setting).answerAll t requests).1.stage ≠ .stopped e := by
  induction requests generalizing t with
  | nil => exact hstage
  | cons request requests ih =>
      have hout := answerRequest_outcome setting t request
      rw [answerAll_cons]
      change AnswerOutcome setting t request ((servingService setting).answer t request) at hout
      generalize (servingService setting).answer t request = turn at hout ⊢
      cases hout with
      | stopped herror =>
          obtain ⟨response, os, hhandle, -⟩ := hexpects 0 request rfl t.os
          rw [Nat.add_zero, herror] at hhandle
          cases hhandle
      | @responded os reply keeps hrequest hhandled hcontent hopen howns hkept =>
          have hnext : ∀ e, (t.respond setting.iteration os reply).stage ≠ .stopped e := by
            simp only [ServingThread.respond, ServingThread.send]
            split_ifs <;> simp
          have hlength : (t.respond setting.iteration os reply).replies.length =
              t.replies.length + 1 := by
            simp [ServingThread.respond, ServingThread.send]
          cases keeps with
          | true =>
              refine ih hnext fun k later hk => ?_
              rw [hlength, Nat.add_assoc, Nat.add_comm 1 k]
              exact hexpects (k + 1) later hk
          | false => exact hnext

theorem isPrefix_uptoClose (requests : List HttpRequest) : uptoClose requests <+: requests := by
  induction requests with
  | nil => exact List.nil_prefix
  | cons request requests ih =>
      rw [uptoClose]
      split_ifs
      · exact ⟨requests, rfl⟩
      · exact List.cons_prefix_cons.2 ⟨rfl, ih⟩

/-- Only the last request may want the connection closed. -/
theorem uptoClose_dropLast {requests : List HttpRequest}
    (h : ∀ request ∈ requests.dropLast, wantsClose request = false) :
    uptoClose requests = requests := by
  induction requests with
  | nil => rfl
  | cons request requests ih =>
      cases requests with
      | nil =>
          rw [uptoClose]
          split_ifs <;> rfl
      | cons next requests =>
          rw [List.dropLast_cons_cons, List.forall_mem_cons] at h
          rw [uptoClose, h.1, ih h.2]
          rfl

theorem RepliesHandled.expected {setting : ThreadSetting} {t : ServingThread}
    (h : RepliesHandled setting t) {rs : List WrittenRequest} {expected : Nat → Reply → Prop}
    (hexpects : ∀ k r, rs[k]? = some r → Expects setting k r.parsed (expected k))
    (hrequests : t.replies.map Reply.request = uptoClose (rs.map WrittenRequest.parsed))
    {k : Nat} {reply : Reply} (hk : t.replies[k]? = some reply) :
    ∃ r, rs[k]? = some r ∧ reply.request = r.parsed ∧ expected k reply := by
  have hrequest : (uptoClose (rs.map WrittenRequest.parsed))[k]? = some reply.request := by
    rw [← hrequests, List.getElem?_map, hk]
    rfl
  obtain ⟨rest, hrest⟩ := isPrefix_uptoClose (rs.map WrittenRequest.parsed)
  have hparsed : (rs.map WrittenRequest.parsed)[k]? = some reply.request := by
    rw [← hrest, List.getElem?_append_left (List.getElem?_eq_some_iff.1 hrequest).1, hrequest]
  rw [List.getElem?_map, Option.map_eq_some_iff] at hparsed
  obtain ⟨r, hr, hparsed⟩ := hparsed
  obtain ⟨s, s', hhandle, hcontent⟩ := h k reply hk
  obtain ⟨response, os, hexpected, hreply⟩ := hexpects k r hr s
  rw [hparsed, hhandle] at hexpected
  obtain ⟨hresponse, rfl⟩ := Prod.mk.inj hexpected
  refine ⟨r, hr, hparsed.symm, ?_⟩
  obtain ⟨request, response, content⟩ := reply
  cases hresponse
  cases hcontent
  rw [hparsed] at hreply
  exact hreply

/--
If every request that is written comes to an expected reply, a client reads these
replies, in the order of the requests, up to the first request that wants the
connection closed.
-/
theorem serveConnection_expected (setting : ThreadSetting) (os : OsState)
    (rs : List WrittenRequest) (expected : Nat → Reply → Prop)
    (hexpects : ∀ k r, rs[k]? = some r → Expects setting k r.parsed (expected k))
    (hunderstood : ∀ k r reply, rs[k]? = some r → reply.request = r.parsed → expected k reply →
      reply.Understood)
    (reads : List Bytes) (hreads : ∀ data ∈ reads, data ≠ [])
    (hstream : reads.flatten = rs.flatMap WrittenRequest.bytes)
    (hlines : RequestParser.StreamLinesWithin reads.flatten)
    (answers : List Answer) (hanswers : ∀ a ∈ answers, a.fails = false)
    (hwriting : (serveConnection setting os (untilEnd reads) answers).stage ≠ .writing) :
    ∃ decoded,
      readResponses (rs.map WrittenRequest.method)
          ((serveConnection setting os (untilEnd reads) answers).written.flatMap Written.bytes) =
        some decoded ∧
      decoded.length = (uptoClose (rs.map WrittenRequest.parsed)).length ∧
      ∀ k response, decoded[k]? = some response → ∃ r reply, rs[k]? = some r ∧
        reply.request = r.parsed ∧ expected k reply ∧ reply.transmission.ReadAs response := by
  have hdrive : RequestParser.drive {} reads.flatten = (rs.map WrittenRequest.parsed, {}) := by
    rw [hstream, RequestParser.drive_written]
  have hserved := serveConnection_eq setting os hreads hlines answers
  have hhandled := serveConnection_handled setting os (untilEnd reads) answers
  have hsent := serveConnection_delivered setting os hreads hlines hanswers
  generalize serveConnection setting os (untilEnd reads) answers = t at *
  rw [hdrive] at hserved hsent
  have hnoError : ({} : RequestParser).state ≠ .error := by decide
  have hserving : t.stage = .serving := by
    have hparsed : ∀ k request, (rs.map WrittenRequest.parsed)[k]? = some request →
        Expects setting (0 + k) request (expected (0 + k)) := by
      intro k request hk
      rw [List.getElem?_map, Option.map_eq_some_iff] at hk
      obtain ⟨r, hr, rfl⟩ := hk
      rw [Nat.zero_add]
      exact hexpects k r hr
    have hnot := answerAll_not_stopped setting _ (t := { os, answers }) (by simp) hparsed
    have hstage : ∀ e, t.stage ≠ .stopped e := by
      rw [hserved, Service.serve]
      simpa [hnoError] using hnot
    cases hcases : t.stage with
    | serving => rfl
    | writing => exact absurd hcases hwriting
    | stopped e => exact absurd hcases (hstage e)
  obtain ⟨hrequests, hbytes, -⟩ := hsent hserving
  have hreply : ∀ k reply, t.replies[k]? = some reply → ∃ r, rs[k]? = some r ∧
      reply.request = r.parsed ∧ expected k reply :=
    fun k reply => hhandled.expected hexpects hrequests
  have hall : ∀ reply ∈ t.replies, reply.Understood := by
    intro reply hmem
    obtain ⟨k, hk⟩ := List.mem_iff_getElem?.1 hmem
    obtain ⟨r, hr, hrequest, hexpected⟩ := hreply k reply hk
    exact hunderstood k r reply hr hrequest hexpected
  have hnone : refusals (rs.map WrittenRequest.parsed, {}) = [] :=
    if_neg fun hrefused => hnoError hrefused.1
  have hreadable := readable_replies hall hrequests (fun _ => rfl) (.nil [])
  obtain ⟨decoded, hread, hmatch⟩ := hreadable.readResponses setting.iteration
  rw [List.append_nil, List.append_nil, List.map_map] at hread
  rw [List.append_nil] at hmatch
  refine ⟨decoded, ?_, ?_, fun k response hk => ?_⟩
  · rw [hbytes, hnone, List.append_nil]
    exact hread
  · rw [← hmatch.length_eq, ← hrequests, List.length_map, List.length_map]
  · obtain ⟨hlt, rfl⟩ := List.getElem?_eq_some_iff.1 hk
    have hlt' : k < t.replies.length := by
      have hlength := hmatch.length_eq
      rw [List.length_map] at hlength
      omega
    obtain ⟨r, hr, hrequest, hexpected⟩ := hreply k _ (List.getElem?_eq_getElem hlt')
    have hreadAs := hmatch.get (by simpa using hlt') hlt
    simp only [List.get_eq_getElem, List.getElem_map] at hreadAs
    exact ⟨r, _, hr, hrequest, hexpected, hreadAs⟩

end CppHttpd
