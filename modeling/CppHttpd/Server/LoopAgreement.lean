import CppHttpd.Server.ConnectionRun

/-!
# When the event loop agrees with the thread pool

Both loops hand the same requests over, and hold the same beginning of a next
one, exactly as long as no read carries bytes behind a request that it
completes.  Behind a request that asks for the connection to be closed there is
nothing to lose.
-/

namespace CppHttpd

open CppHttpd.Foundation RequestParser

variable {W : Type*}

/-- The requests handed to `process_request`. -/
def handed : List Action → List HttpRequest
  | [] => []
  | .answered request _ :: actions => request :: handed actions
  | .refused _ :: actions => handed actions

/-- The same requests are handed over, and what has arrived of a next one is kept alike. -/
structure SameRequests (loop thread : Served W) : Prop where
  handed_eq : handed loop.actions = handed thread.actions
  blocked_eq : loop.blocked = thread.blocked

/--
Every read that completes a request ends with it, unless the request asks for
the connection to be closed.
-/
def Aligned : RequestParser → List Bytes → Prop
  | _, [] => True
  | p, data :: reads =>
      if (p.feed data).hasRequest then
        wantsClose (p.feed data).request = true ∨
          (p.feed data).buffer = [] ∧ Aligned {} reads
      else if (p.feed data).hasError then True
      else Aligned (p.feed data) reads

/-! ## The thread, read by read -/

section

variable (h : Handler W) (clientIp : Bytes)

theorem connectionLoop_read (fuel : Nat) (w : W) {p : RequestParser}
    (hdone : p.state ≠ .done) (herr : p.state ≠ .error) {data : Bytes} (hdata : data ≠ [])
    (reads : List ReadResult) :
    connectionLoop h clientIp (fuel + 1) w p (.ok data :: reads) =
      if (p.feed data).hasRequest then
        let processed := processRequest h w clientIp (p.feed data).request
        if wantsClose (p.feed data).request then
          ⟨[.answered (p.feed data).request processed.1], processed.2, none⟩
        else
          let rest := connectionLoop h clientIp fuel processed.2
            (p.feed data).getRequest.2 reads
          { rest with
            actions := .answered (p.feed data).request processed.1 :: rest.actions }
      else if (p.feed data).hasError then
        ⟨[.refused (errorResponse h.iteration (p.feed data).error)], w, none⟩
      else connectionLoop h clientIp (fuel + 1) w (p.feed data) reads := by
  have hp : p.hasRequest = false := by simpa [hasRequest] using hdone
  have hp' : p.hasError = false := by simpa [hasError] using herr
  rw [connectionLoop]
  simp only [hp, hp', Bool.false_eq_true, if_false, awaitRequest, if_neg hdata]
  split_ifs with hrequest hwants herror
  · simp [getRequest, hwants]
  · simp [getRequest, hwants]
  · rfl
  · rw [connectionLoop]
    simp only [hrequest, herror, Bool.false_eq_true, if_false]

theorem connectionLoop_nil (fuel : Nat) (w : W) {p : RequestParser}
    (hdone : p.state ≠ .done) (herr : p.state ≠ .error) :
    connectionLoop h clientIp (fuel + 1) w p [] = ⟨[], w, some p⟩ := by
  simp [connectionLoop, hasRequest, hasError, hdone, herr, awaitRequest]

theorem connectionLoop_behind (fuel : Nat) (w : W) {rest : Bytes} (hrest : rest ≠ []) :
    ¬ SameRequests ⟨[], w, some {}⟩
      (connectionLoop h clientIp (fuel + 1) w (advance { buffer := rest }) []) := by
  rintro ⟨hhanded, hblocked⟩
  by_cases hdone : (advance { buffer := rest }).state = .done
  · rw [connectionLoop] at hhanded
    simp only [hasRequest, hdone, decide_true, if_true] at hhanded
    split_ifs at hhanded <;> simp [handed] at hhanded
  · by_cases herr : (advance { buffer := rest }).state = .error
    · simp [connectionLoop, hasRequest, hasError, herr] at hblocked
    · rw [connectionLoop_nil h clientIp fuel w hdone herr] at hblocked
      exact advance_fresh_ne hrest (Option.some.inj hblocked).symm

end

/-! ## Both loops, read by read -/

theorem forall_take_cons {α : Type*} {P : Nat → List α → Prop} (x : α) (xs : List α) :
    (∀ k, P k ((x :: xs).take k)) ↔ P 0 [] ∧ ∀ k, P (k + 1) (x :: xs.take k) := by
  constructor
  · intro hall
    exact ⟨hall 0, fun k => hall (k + 1)⟩
  · rintro ⟨hnil, hcons⟩ k
    cases k with
    | zero => exact hnil
    | succ k => exact hcons k

theorem sameRequests_answered (request : HttpRequest) (package : ResponsePackage)
    (loop thread : Served W) :
    SameRequests { loop with actions := .answered request package :: loop.actions }
        { thread with actions := .answered request package :: thread.actions } ↔
      SameRequests loop thread := by
  constructor
  · rintro ⟨hhanded, hblocked⟩
    exact ⟨by simpa [handed] using hhanded, hblocked⟩
  · rintro ⟨hhanded, hblocked⟩
    exact ⟨by simpa [handed] using hhanded, hblocked⟩

/-- Without anything to read both wait. -/
theorem sameRequests_nil (h : Handler W) (clientIp : Bytes) {fuel : Nat} (hfuel : 0 < fuel) (w : W)
    {p : RequestParser} (hdone : p.state ≠ .done) (herr : p.state ≠ .error) :
    SameRequests (selectServed h clientIp w p []) (connectionLoop h clientIp fuel w p []) := by
  obtain ⟨n, rfl⟩ := Nat.exists_eq_add_one.2 hfuel
  rw [connectionLoop_nil h clientIp n w hdone herr]
  exact ⟨rfl, rfl⟩

/-- Two loops that start alike keep in step on every part of aligned reads, and on no others. -/
theorem aligned_iff (h : Handler W) (clientIp : Bytes) (fuel : Nat → Nat) (w : W)
    {p : RequestParser} (hdone : p.state ≠ .done) (herr : p.state ≠ .error)
    (reads : List Bytes) (hreads : ∀ data ∈ reads, data ≠ [])
    (hfuel : ∀ k, (reads.take k).length < fuel k) :
    Aligned p reads ↔
      ∀ k, SameRequests (selectServed h clientIp w p (reads.take k))
        (connectionLoop h clientIp (fuel k) w p ((reads.take k).map .ok)) := by
  induction reads generalizing fuel w p with
  | nil =>
      simp only [Aligned, List.take_nil, List.map_nil, selectServed, true_iff]
      intro k
      exact sameRequests_nil h clientIp (Nat.zero_lt_of_lt (hfuel k)) w hdone herr
  | cons data reads ih =>
      obtain ⟨hdata, hrest⟩ := List.forall_mem_cons.1 hreads
      obtain ⟨fuel', hfuel'⟩ : ∃ f : Nat → Nat, ∀ k, fuel (k + 1) = f k + 1 :=
        ⟨fun k => fuel (k + 1) - 1, fun k => by
          have := hfuel (k + 1)
          dsimp only
          omega⟩
      have hless : ∀ k, (reads.take k).length < fuel' k := by
        intro k
        have hk := hfuel (k + 1)
        rw [hfuel', List.take_succ_cons, List.length_cons] at hk
        omega
      have hnil : SameRequests (selectServed h clientIp w p [])
          (connectionLoop h clientIp (fuel 0) w p ([].map ReadResult.ok)) :=
        sameRequests_nil h clientIp (hfuel 0) w hdone herr
      have hsplit := forall_take_cons (P := fun k taken =>
        SameRequests (selectServed h clientIp w p taken)
          (connectionLoop h clientIp (fuel k) w p (taken.map .ok))) data reads
      rw [hsplit, and_iff_right hnil]
      simp only [List.map_cons, selectServed, if_neg hdata, Aligned, hfuel',
        connectionLoop_read h clientIp _ w hdone herr hdata]
      split_ifs with hrequest hwants herror
      · simp only [hwants, true_or, true_iff]
        exact fun _ => ⟨rfl, rfl⟩
      · simp only [hwants, false_or, sameRequests_answered, Bool.false_eq_true]
        have hnew : (p.feed data).getRequest.2 =
            advance { buffer := (p.feed data).buffer } := rfl
        rw [hnew]
        by_cases hbehind : (p.feed data).buffer = []
        · have hfresh : advance { buffer := [] } = {} := rfl
          rw [hbehind, hfresh]
          simp only [true_and]
          exact ih _ _ (by decide) (by decide) hrest hless
        · simp only [hbehind, false_and, false_iff, not_forall]
          obtain ⟨n, hn⟩ := Nat.exists_eq_add_one.2 (hless 0)
          refine ⟨0, ?_⟩
          rw [hn]
          exact connectionLoop_behind h clientIp n _ hbehind
      · simp only [true_iff]
        exact fun _ => ⟨rfl, rfl⟩
      · have hless' : ∀ k, (reads.take k).length < fuel' k + 1 := fun k =>
          Nat.lt_succ_of_lt (hless k)
        exact ih _ w (by simpa [hasRequest] using hrequest)
          (by simpa [hasError] using herror) hrest hless'

/-! ## Every run -/

theorem exists_writePending (s : ConnState) :
    ∃ write, write ≠ .failed ∧ ∃ s', writePending s write = .ok s' := by
  by_cases hpending : s.writeBuf.length - s.writeOffset > 0
  · refine ⟨.sent _ hpending, by simp, ?_⟩
    rw [writePending, if_pos hpending]
    dsimp only
    rw [if_neg (by omega)]
    exact ⟨_, rfl⟩
  · exact ⟨.again, by simp, s, by rw [writePending, if_neg hpending]⟩

theorem exists_sendBody (s : ConnState) :
    ∃ sendfiles, .failed ∉ sendfiles ∧ ∃ s', sendBody s sendfiles = .ok s' := by
  by_cases hsize : s.sendfileSize > 0
  · refine ⟨[.sent s.sendfileSize.toNat (by omega)], by simp, ?_⟩
    rw [sendBody, if_pos hsize]
    rw [sendBody, if_neg (by simp only [ConnState.bodySent]; omega)]
    exact ⟨_, rfl⟩
  · exact ⟨[], by simp, by rw [sendBody, if_neg hsize]; exact ⟨_, rfl⟩⟩

theorem exists_flush (w : W) (s : ConnState) : ∃ write sendfiles,
    Succeeds write sendfiles ∧
      ((processWritable w s write sendfiles).close = false →
        (processWritable w s write sendfiles).state.phase = .reading) := by
  obtain ⟨write, hwrite, s', hpending⟩ := exists_writePending s
  obtain ⟨sendfiles, hsendfiles, s'', hbody⟩ := exists_sendBody s'
  refine ⟨write, sendfiles, ⟨hwrite, hsendfiles⟩, ?_⟩
  have hwritten : ∃ s₁, (do
      let state ← writePending s write
      if state.sendfileFd.isSome then sendBody state sendfiles else .ok state) =
        Except.ok s₁ := by
    rw [hpending]
    change ∃ s₁, (if s'.sendfileFd.isSome then _ else _) = _
    split_ifs
    · exact ⟨s'', hbody⟩
    · exact ⟨s', rfl⟩
  obtain ⟨s₁, hwritten⟩ := hwritten
  rw [processWritable, hwritten]
  dsimp only
  split_ifs
  · simp
  · exact fun _ => rfl

/-- Whatever the reads, the event loop can take them and finish every response. -/
theorem exists_run (h : Handler W) (reads : List Bytes) {s : ConnState}
    (hphase : s.phase = .reading) (w : W) :
    ∃ actions last, ConnRun h s w reads actions last ∧ Settled last := by
  induction reads generalizing s w with
  | nil => exact ⟨[], (some s, w), .stop s w, fun _ hs => by cases hs; exact hphase⟩
  | cons data reads ih =>
      cases hclose : (processReadable h w s (.ok data)).close with
      | true => exact ⟨_, _, .readClose reads hphase hclose, by simp [Settled]⟩
      | false =>
          cases hnext : (processReadable h w s (.ok data)).state.phase with
          | reading =>
              obtain ⟨actions, last, run, hsettled⟩ :=
                ih hnext (processReadable h w s (.ok data)).world
              exact ⟨_, last, .read hphase hclose run, hsettled⟩
          | writing =>
              obtain ⟨write, sendfiles, hsucceeds, hflush⟩ :=
                exists_flush (processReadable h w s (.ok data)).world
                  (processReadable h w s (.ok data)).state
              cases hend : (processWritable (processReadable h w s (.ok data)).world
                  (processReadable h w s (.ok data)).state write sendfiles).close with
              | true =>
                  exact ⟨_, _, .read hphase hclose (.writeClose reads hnext hsucceeds hend),
                    by simp [Settled]⟩
              | false =>
                  obtain ⟨actions, last, run, hsettled⟩ :=
                    ih (hflush hend) (processReadable h w s (.ok data)).world
                  exact ⟨_, last, .read hphase hclose (.write hnext hsucceeds hend run),
                    hsettled⟩

/--
The event loop and a connection thread keep in step, on whatever part of the
reads and however the responses are written, exactly if the reads are aligned.
-/
theorem connRun_sameRequests_iff (h : Handler W) (w : W) (fd : Fd) (clientIp : Bytes)
    (acceptedAt : Int) (reads : List Bytes) (hreads : ∀ data ∈ reads, data ≠ []) :
    Aligned {} reads ↔
      ∀ k actions last,
        ConnRun h { fd, clientIp, acceptedAt } w (reads.take k) actions last →
          Settled last →
            SameRequests (Served.ofRun actions last)
              (handleConnection h w clientIp ((reads.take k).map .ok)) := by
  have hfuel : ∀ k, (reads.take k).length <
      ((reads.take k).map ReadResult.ok).length +
        (((reads.take k).map ReadResult.ok).map ReadResult.size).sum + 1 := by
    intro k
    rw [List.length_map]
    omega
  rw [aligned_iff h clientIp _ w (by decide) (by decide) reads hreads hfuel]
  constructor
  · intro hsame k actions last run hsettled
    rw [run.served hsettled]
    exact hsame k
  · intro hruns k
    obtain ⟨actions, last, run, hsettled⟩ :=
      exists_run h (reads.take k) (s := { fd, clientIp, acceptedAt }) rfl w
    have hsame := hruns k actions last run hsettled
    rw [run.served hsettled] at hsame
    exact hsame

/-- Two requests arrive in one read, and then the end of the stream. -/
theorem connRun_sameRequests_iff_pipelined :
    let h : Handler Unit :=
      { handle := fun _ _ _ _ => (HttpResponse.ofStatus StatusCode.Ok, ())
        accepting := fun _ => true
        iteration := .inOrder }
    let reads := [ascii "GET /a HTTP/1.1\r\n\r\nGET /b HTTP/1.1\r\n\r\n"]
    Aligned {} reads ↔
      ∀ k actions last,
        ConnRun h { fd := 7 } () (reads.take k) actions last → Settled last →
          SameRequests (Served.ofRun actions last)
            (handleConnection h () [] ((reads.take k).map .ok)) :=
  connRun_sameRequests_iff _ _ _ _ _ _ (by decide)

/-- The event loop never hands the second of them over. -/
theorem pipelined_request_dropped :
    let h : Handler Unit :=
      { handle := fun _ _ _ _ => (HttpResponse.ofStatus StatusCode.Ok, ())
        accepting := fun _ => true
        iteration := .inOrder }
    let data := ascii "GET /a HTTP/1.1\r\n\r\nGET /b HTTP/1.1\r\n\r\n"
    (∃ actions last, ConnRun h { fd := 7 } () [data, []] actions last ∧ Settled last ∧
      (handed actions).map HttpRequest.uri = [ascii "/a"]) ∧
    (handed (handleConnection h () [] (untilEnd [data])).actions).map HttpRequest.uri =
      [ascii "/a", ascii "/b"] := by
  intro h data
  have hphase : ({ fd := 7 } : ConnState).phase = .reading := rfl
  refine ⟨?_, by decide⟩
  obtain ⟨actions, last, run, hsettled⟩ := exists_run h [data, []] hphase ()
  refine ⟨actions, last, run, hsettled, ?_⟩
  have hactions : actions = (pending h { fd := 7 } () [data, []]).actions :=
    congrArg Served.actions (run.served hsettled)
  rw [hactions]
  decide

end CppHttpd
