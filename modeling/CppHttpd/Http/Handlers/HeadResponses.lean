import CppHttpd.Http.Handlers.Framing

/-!
# Responses to HEAD requests

The phase Content drops the body of a file or a listing when the request is a
HEAD request.  The output of a program is not dropped: its chunks, or at least
the last chunk, are sent behind the header section.
-/

namespace CppHttpd

open CppHttpd.Foundation

/-- What is sent ends with the blank line that closes the header section. -/
structure EndsWithHead (it : HttpResponse.Iteration) (request : HttpRequest)
    (response : HttpResponse) : Prop where
  bytes : (packageResponse it request response).bytes = (sentMessage it request response).head
  bodyFd : (packageResponse it request response).bodyFd = none

section

variable {it : HttpResponse.Iteration} {env : Environment} {request : HttpRequest}

theorem packageResponse_bodyFd (it : HttpResponse.Iteration) (request : HttpRequest)
    (response : HttpResponse) :
    (packageResponse it request response).bodyFd = response.bodyFd := by
  unfold packageResponse
  cases hfd : response.bodyFd <;> simp [HttpResponse.setHeader, hfd]

theorem endsWithHead_iff {response : HttpResponse} :
    EndsWithHead it request response ↔
      (sentMessage it request response).body = [] ∧ response.bodyFd = none := by
  constructor
  · rintro ⟨hbytes, hfd⟩
    rw [packageResponse_bytes, List.append_right_eq_self] at hbytes
    rw [packageResponse_bodyFd] at hfd
    exact ⟨hbytes, hfd⟩
  · rintro ⟨hbody, hfd⟩
    refine ⟨?_, (packageResponse_bodyFd it request response).trans hfd⟩
    rw [packageResponse_bytes, hbody, List.append_nil]

theorem OnlyLength.endsWithHead {response : HttpResponse} (h : OnlyLength response.headers)
    (hbody : response.body = []) (hfd : response.bodyFd = none) :
    EndsWithHead it request response := by
  rw [endsWithHead_iff, h.sentMessage_body]
  simp [hbody, hfd]

theorem ofStatus_endsWithHead (code : StatusCode) :
    EndsWithHead it request (.ofStatus code) :=
  (onlyLength_ofStatus code).endsWithHead rfl rfl

theorem cgiOutcomeResponse_endsWithHead_iff (uninitialised : Int) (outcome : CgiOutcome) :
    EndsWithHead it request (cgiOutcomeResponse uninitialised outcome) ↔
      cgiParts outcome = none := by
  cases outcome with
  | exited output =>
      simp only [cgiOutcomeResponse, parseCgiOutput, cgiParts]
      cases splitCgiOutput output with
      | none => exact iff_of_true (ofStatus_endsWithHead _) rfl
      | some parts =>
          rw [endsWithHead_iff, sent_cgiResponse_body]
          simp [chunkEncode_ne_nil]
  | _ => exact iff_of_true (ofStatus_endsWithHead _) rfl

theorem withoutBody_endsWithHead (hhead : request.method = .HEAD) {call : Call HttpResponse}
    {s : OsState} (h : Returns (fun response => OnlyLength response.headers) (call s)) :
    Returns (EndsWithHead it request) (withoutBody request call s) := by
  refine withoutBody_head hhead h fun {response} honly => ?_
  have hdropped : OnlyLength { response with bodyFd := none, body := [] }.headers := honly
  exact hdropped.endsWithHead rfl rfl

/--
A HEAD request is answered with a header section and nothing else, exactly unless
it reaches a program whose output has a header block.
-/
theorem handle_endsWithHead_iff (it : HttpResponse.Iteration) (env : Environment)
    (config : Config) {request : HttpRequest} (hhead : request.method = .HEAD)
    (acceptingNewConnections : Bool) (clientRemoteAddr : Option Bytes) (s : OsState) :
    (∀ response, (handle env config request acceptingNewConnections clientRemoteAddr s).1 =
        .ok response → EndsWithHead it request response) ↔
      ∀ vhost path, route env config request = .cgi vhost path →
        ∀ outcome, env.cgi (cgiCall config path request (some vhost) clientRemoteAddr) =
          .returned outcome → cgiParts outcome = none := by
  rw [handle_eq]
  change Returns (EndsWithHead it request) _ ↔ _
  cases route env config request with
  | cgi vhost path =>
      simp only [answer, runCgi_returns_iff, cgiOutcomeResponse_endsWithHead_iff]
      refine ⟨?_, ?_⟩
      · rintro hparts _ _ ⟨⟩
        exact hparts
      · exact fun hparts => hparts vhost path rfl
  | unavailable =>
      exact iff_of_true (returns_ok.2 (ofStatus_endsWithHead _)) (by simp)
  | load =>
      cases acceptingNewConnections with
      | false => exact iff_of_true (returns_ok.2 (ofStatus_endsWithHead _)) (by simp)
      | true => exact iff_of_true (returns_ok.2 (ofStatus_endsWithHead _)) (by simp)
  | forbidden => exact iff_of_true (returns_ok.2 (ofStatus_endsWithHead _)) (by simp)
  | notFound => exact iff_of_true (returns_ok.2 (ofStatus_endsWithHead _)) (by simp)
  | methodNotAllowed => exact iff_of_true (returns_ok.2 (ofStatus_endsWithHead _)) (by simp)
  | unauthorized =>
      have honly : OnlyLength unauthorizedResponse.headers :=
        ((onlyLength_ofStatus _).setHeader (by decide)).setHeader fun _ => rfl
      exact iff_of_true (returns_ok.2 (honly.endsWithHead rfl rfl)) (by simp)
  | options =>
      have honly : OnlyLength (optionsResponse env).headers :=
        ((onlyLength_ofStatus _).setHeader (by decide)).setHeader (by decide)
      exact iff_of_true (returns_ok.2 (honly.endsWithHead rfl rfl)) (by simp)
  | file path =>
      exact iff_of_true (withoutBody_endsWithHead hhead (serveStaticFile_onlyLength path s))
        (by simp)
  | directory vhost path =>
      exact iff_of_true (withoutBody_endsWithHead hhead
        (serveDirectoryIndex_onlyLength path vhost.documentRoot s)) (by simp)

end

/-- Where there are no programs, every HEAD request is answered with a header section. -/
theorem handle_endsWithHead_iff_flat :
    let config : Config := { virtualHosts := [⟨ascii "/", ascii "localhost"⟩] }
    let env := Environment.still (.flat [(ascii "a.txt", ascii "text")]) fun _ => .forkFailed
    let request : HttpRequest :=
      { method := .HEAD, methodStr := ascii "HEAD", uri := ascii "/a.txt" }
    ∀ response, (handle env config request true none {}).1 = .ok response →
      EndsWithHead .inOrder request response :=
  (handle_endsWithHead_iff .inOrder _ _ rfl true none {}).2 fun vhost path hroute => by
    cases hroute

/-- A root whose files are programs, which all write the same output. -/
def scriptEnvironment (output : Bytes) : Environment :=
  let files := FileSystem.flat [(ascii "hello.sh", [])]
  .still { files with
    stat := fun i => { files.stat i with executable := true }
    parent_directory := fun _ => rfl } fun _ => .exited output

def headOfScript : RequestParser := RequestParser.feed {} (ascii "HEAD /hello.sh HTTP/1.1\r\n\r\n")

/-- The chunks of the output follow the header section. -/
theorem head_request_sends_chunks :
    let config : Config := { virtualHosts := [⟨ascii "/", ascii "localhost"⟩] }
    let env := scriptEnvironment (ascii "Content-Type: text/plain\n\nhello")
    let request := headOfScript.getRequest.1
    headOfScript.hasRequest = true ∧ request.method = .HEAD ∧
      ∃ response, (handle env config request true none {}).1 = .ok response ∧
        (packageResponse .inOrder request response).bytes =
          ascii "HTTP/1.1 200 OK\r\nConnection: keep-alive\r\nTransfer-Encoding: chunked\r\n" ++
          ascii "Content-Type: text/plain\r\n\r\n5\r\nhello\r\n0\r\n\r\n" ∧
        ¬ EndsWithHead .inOrder request response := by
  refine ⟨by decide, by decide,
    cgiOutcomeResponse 0 (.exited (ascii "Content-Type: text/plain\n\nhello")), by rfl,
    by decide, ?_⟩
  rw [cgiOutcomeResponse_endsWithHead_iff]
  decide

end CppHttpd
