import CppHttpd.Http.Core.Logger
import CppHttpd.Http.Handlers.AccessLog
import CppHttpd.Http.Handlers.Framing

/-!
# The lines of the access log

The threads of the server handle requests side by side and share one logger.  A
client chooses its URI and a CGI program its headers, but neither can put a line
end into an entry, so that the log has one line for each request that was handled.
-/

namespace CppHttpd

open CppHttpd.Foundation

/-! ## The length of a response -/

/-- The header that the entry takes the length from, if there is one, is one line. -/
def PlainLength (m : HeaderMap) : Prop :=
  ∀ length, m.lookup (ascii "Content-Length") = some length → LF ∉ length

section

variable {env : Environment} {request : HttpRequest}

theorem PlainLength.setHeader {response : HttpResponse} (h : PlainLength response.headers)
    {name : String} {value : Bytes} (hvalue : ascii name = ascii "Content-Length" → LF ∉ value) :
    PlainLength (response.setHeader name value).headers := by
  intro length hlength
  by_cases hname : ascii name = ascii "Content-Length"
  · rw [HttpResponse.setHeader, hname, AList.lookup_insert] at hlength
    cases hlength
    exact hvalue hname
  · rw [HttpResponse.setHeader, AList.lookup_insert_ne (Ne.symm hname)] at hlength
    exact h length hlength

theorem plainLength_ofStatus (code : StatusCode) :
    PlainLength (HttpResponse.ofStatus code).headers := by
  intro length hlength
  cases hlength

theorem lf_notMem_toDecimal (n : Nat) : LF ∉ toDecimal n := not_mem_toDecimal (by decide) n

/-- Any other header leaves it. -/
theorem PlainLength.setOther {response : HttpResponse} (h : PlainLength response.headers)
    {name : String} {value : Bytes} (hname : ascii name ≠ ascii "Content-Length") :
    PlainLength (response.setHeader name value).headers :=
  h.setHeader fun heq => absurd heq hname

theorem unauthorizedResponse_plainLength : PlainLength unauthorizedResponse.headers :=
  ((plainLength_ofStatus _).setOther (by decide)).setHeader (by decide)

theorem optionsResponse_plainLength : PlainLength (optionsResponse env).headers :=
  ((plainLength_ofStatus _).setOther (by decide)).setOther (by decide)

theorem notModifiedResponse_plainLength (st : Stat) :
    PlainLength (notModifiedResponse env st).headers :=
  (((plainLength_ofStatus _).setOther (by decide)).setOther (by decide)).setOther (by decide)

theorem rangeNotSatisfiable_plainLength (st : Stat) :
    PlainLength (rangeNotSatisfiable st).headers :=
  (plainLength_ofStatus _).setOther (by decide)

theorem fileResponse_plainLength (code : StatusCode) (path : Bytes) (st : Stat) :
    PlainLength (fileResponse env code path st).headers :=
  ((((((plainLength_ofStatus _).setOther (by decide)).setOther (by decide)).setOther
    (by decide)).setOther (by decide)).setOther (by decide)).setOther (by decide)

theorem wholeResponse_plainLength (path : Bytes) (st : Stat) (fd : Fd) :
    PlainLength (wholeResponse env path st fd).headers := by
  simp only [wholeResponse]
  exact (fileResponse_plainLength _ _ _).setHeader fun _ => lf_notMem_toDecimal _

theorem rangeResponse_plainLength (path : Bytes) (st : Stat) (fd : Fd) (start last : Nat) :
    PlainLength (rangeResponse env path st fd start last).headers := by
  simp only [rangeResponse]
  exact ((fileResponse_plainLength _ _ _).setOther (by decide)).setHeader fun _ =>
    lf_notMem_toDecimal _

theorem listingResponse_plainLength (body : Bytes) : PlainLength (listingResponse body).headers :=
  ((plainLength_ofStatus _).setOther (by decide)).setHeader fun _ => lf_notMem_toDecimal _

/-- A program cannot set this header. -/
theorem cgiOutcomeResponse_plainLength (uninitialised : Int) (outcome : CgiOutcome) :
    PlainLength (cgiOutcomeResponse uninitialised outcome).headers := by
  cases outcome with
  | exited output =>
      simp only [cgiOutcomeResponse, parseCgiOutput]
      cases splitCgiOutput output with
      | none => exact plainLength_ofStatus _
      | some parts =>
          intro length hlength
          dsimp only at hlength
          rw [lookup_cgiResponse (by decide)] at hlength
          obtain ⟨field, hfield, -⟩ := Option.map_eq_some_iff.1 hlength
          obtain ⟨hmem, hname⟩ := List.mem_filter.1 (List.mem_of_getLast? hfield)
          obtain ⟨line, -, hline⟩ := List.mem_filterMap.1 hmem
          have hreserved := headerField_not_reserved hline
          rw [of_decide_eq_true hname] at hreserved
          exact absurd hreserved (by decide)
  | _ => exact plainLength_ofStatus _

theorem serveOpenFile_plainLength (path : Bytes) (st : Stat) (fd : Fd) (s : OsState) :
    Returns (fun response => PlainLength response.headers)
      (serveOpenFile env path request st fd s) := by
  unfold serveOpenFile
  dsimp only
  split_ifs
  · rcases parseRange (getHeader request.headers (ascii "range")) st.size with
      e | _ | ⟨start, last⟩
    · exact returns_error
    · exact returns_ok.2 (rangeNotSatisfiable_plainLength st)
    · exact returns_ok.2 (rangeResponse_plainLength path st fd start last)
  · exact returns_ok.2 (wholeResponse_plainLength path st fd)

theorem serveStaticFile_plainLength (path : Bytes) (s : OsState) :
    Returns (fun response => PlainLength response.headers)
      (serveStaticFile env path request s) := by
  unfold serveStaticFile
  cases env.fs.statPath path with
  | none => exact returns_ok.2 (plainLength_ofStatus _)
  | some st =>
      dsimp only
      split_ifs
      · exact returns_ok.2 (plainLength_ofStatus _)
      · exact returns_ok.2 (notModifiedResponse_plainLength st)
      · exact returns_ok.2 (plainLength_ofStatus _)
      · rcases s.openFile env path with ⟨_ | fd, s'⟩
        · exact returns_ok.2 (plainLength_ofStatus _)
        · exact serveOpenFile_plainLength path st fd s'

theorem serveDirectoryIndex_plainLength (path documentRoot : Bytes) (s : OsState) :
    Returns (fun response => PlainLength response.headers)
      (serveDirectoryIndex env path request documentRoot s) := by
  unfold serveDirectoryIndex
  cases indexFile env.fs path request documentRoot with
  | some file => exact serveStaticFile_plainLength file s
  | none =>
      dsimp only
      split_ifs
      · exact returns_ok.2 (plainLength_ofStatus _)
      · exact returns_ok.2 (listingResponse_plainLength _)

theorem withoutBody_plainLength {call : Call HttpResponse} {s : OsState}
    (h : Returns (fun response => PlainLength response.headers) (call s)) :
    Returns (fun response => PlainLength response.headers) (withoutBody request call s) := by
  by_cases hhead : request.method = .HEAD
  · exact withoutBody_head hhead h fun hplain => hplain
  · rwa [withoutBody_other hhead]

theorem handle_plainLength (config : Config) (acceptingNewConnections : Bool)
    (clientRemoteAddr : Option Bytes) (s : OsState) :
    Returns (fun response => PlainLength response.headers)
      (handle env config request acceptingNewConnections clientRemoteAddr s) := by
  rw [handle_eq]
  cases route env config request with
  | load => cases acceptingNewConnections <;> exact returns_ok.2 (plainLength_ofStatus _)
  | unauthorized => exact returns_ok.2 unauthorizedResponse_plainLength
  | options => exact returns_ok.2 optionsResponse_plainLength
  | cgi vhost path => exact runCgi_returns_iff.2 fun _ _ => cgiOutcomeResponse_plainLength _ _
  | file path => exact withoutBody_plainLength (serveStaticFile_plainLength path s)
  | directory vhost path =>
      exact withoutBody_plainLength (serveDirectoryIndex_plainLength path _ s)
  | _ => exact returns_ok.2 (plainLength_ofStatus _)

end

namespace AccessLog

theorem lf_notMem_bytesStr {response : HttpResponse} (h : PlainLength response.headers) :
    LF ∉ bytesStr response := by
  unfold bytesStr
  cases hlength : response.headers.lookup (ascii "Content-Length") with
  | some length => exact h length hlength
  | none =>
      dsimp only
      split_ifs
      · exact not_mem_intToDecimal (by decide) (by decide) _
      · exact lf_notMem_toDecimal _

/-! ## The log -/

/-- What `run_phases` calls the logger with. -/
inductive EntryOf : Bytes → Prop
  | handled (tm : Tm) (client : ClientRemoteAddr) {env : Environment} {config : Config}
      {request : HttpRequest} {acceptingNewConnections : Bool} {s s' : OsState}
      {response : HttpResponse} (hdelivered : RequestParser.Delivered request)
      (hhandle : handle env config request acceptingNewConnections client.value s =
        (.ok response, s')) :
      EntryOf (phaseLog tm client.value request response)

theorem EntryOf.lf_notMem {entry : Bytes} (h : EntryOf entry) : LF ∉ entry := by
  cases h with
  | @handled tm client env config request acceptingNewConnections s s' response hdelivered
      hhandle =>
      obtain ⟨p, hreached, -, rfl⟩ := hdelivered
      have hplain : PlainLength response.headers := by
        apply handle_plainLength config acceptingNewConnections client.value s
        rw [hhandle]
      exact lf_not_mem_phaseLog (RequestParser.oneLine_of_reached hreached)
        (lf_notMem_bytesStr hplain)

/--
However the threads of the server take turns, and whenever the log is read: it has what
was there before, a line for each request that is logged, in the order in which the
threads came to write, and no more behind them than a part of the one entry that is
being written.  Each thread has written its entries in its own order, but for the one
that it is still in the logger with.
-/
theorem log_wholeLines {ι : Type*} [DecidableEq ι] {toFile : Bool} {before : List Bytes}
    (hbefore : ∀ line ∈ before, LF ∉ line) {trace : List (Logger ι × LoggerLabel ι)}
    {s : Logger ι} (hrun : (logger ι toFile (before.flatMap (· ++ [LF]))).Run trace s)
    (hentries : ∀ call ∈ (LogHistory.ofTrace trace).calls, EntryOf call.2) :
    let hist := LogHistory.ofTrace trace
    (getLines LF s.out = before ++ hist.lines.map Prod.snd ∨
      ∃ i entry part, s.mutex = some i ∧ (s.threads i).entries = [entry] ∧ part <+: entry ∧
        getLines LF s.out = before ++ hist.lines.map Prod.snd ++ [part]) ∧
      ∀ i, LogHistory.of i hist.calls = LogHistory.of i hist.lines ++ (s.threads i).entries := by
  intro hist
  have hserial := LogHistory.serial_of_run hrun
  have hcalls : ∀ call ∈ hist.calls, LF ∉ call.2 := fun call hcall =>
    (hentries call hcall).lf_notMem
  exact ⟨hserial.getLines_out hbefore hcalls, hserial.calls⟩

/-- Two threads log a request: one has written its line, the other a part of it. -/
theorem log_wholeLines_two :
    let entry (client : ClientRemoteAddr) :=
      phaseLog newYear client.value missingFile.getRequest.1 (.ofStatus .NotFound)
    ∃ trace s, (logger Bool true (ascii "started\n")).Run trace s ∧
      getLines LF s.out = [ascii "started", entry .absent, ascii "127.0"] ∧
      (getLines LF s.out = ascii "started" ::
          ((LogHistory.ofTrace trace).lines.map Prod.snd) ∨
        ∃ i e part, s.mutex = some i ∧ (s.threads i).entries = [e] ∧ part <+: e ∧
          getLines LF s.out = [ascii "started"] ++
            (LogHistory.ofTrace trace).lines.map Prod.snd ++ [part]) := by
  intro entry
  let labels : List (LoggerLabel Bool) := [.call true (entry (.inet 127 0 0 1)),
    .call false (entry .absent), .lock false, .putEntry false, .spill 20, .putEnd false,
    .flush false, .unlock false, .lock true, .putEntry true, .spill 5]
  have hrun : ((logger Bool true (ascii "started\n")).record []
      { toFile := true, out := ascii "started\n" } labels).any (fun r =>
      decide ((LogHistory.ofTrace r.1).calls =
        [(true, entry (.inet 127 0 0 1)), (false, entry .absent)]) &&
      decide (getLines LF r.2.out = [ascii "started", entry .absent, ascii "127.0"])) = true := by
    decide +kernel
  obtain ⟨⟨trace, s⟩, hrecord, hchecked⟩ := (Option.any_eq_true _ _).1 hrun
  simp only [Bool.and_eq_true, decide_eq_true_eq] at hchecked
  obtain ⟨hcalls, hlines⟩ := hchecked
  have hinit : (logger Bool true (ascii "started\n")).init
      { toFile := true, out := ascii "started\n" } := rfl
  have hreached := (Machine.Run.init hinit).record labels hrecord
  have hdelivered : RequestParser.Delivered missingFile.getRequest.1 :=
    ⟨missingFile, .step (l := .feed (ascii "GET /missing HTTP/1.1\r\n\r\n")) (.init rfl) trivial
      rfl, by decide, rfl⟩
  have hentry : ∀ client, EntryOf (entry client) := fun client =>
    @EntryOf.handled newYear client (.still (.flat []) fun _ => .forkFailed)
      { virtualHosts := [⟨ascii "/", ascii "localhost"⟩] } _ true {} {} _ hdelivered rfl
  have hbefore : ∀ line ∈ [ascii "started"], LF ∉ line := by
    simp only [List.mem_singleton, forall_eq]
    decide
  refine ⟨trace, s, hreached, hlines, (log_wholeLines hbefore hreached ?_).1⟩
  rw [hcalls]
  simp [hentry]

end AccessLog

end CppHttpd
