import CppHttpd.Server.LoopAgreement
import CppHttpd.Server.ResumedWriting

/-!
# The history of a connection

A worker of the event loop goes from one connection to another as the kernel
reports them.  The history of a connection is what a run has done for this one
since it was accepted: the reads, the requests that they completed, and how much of
each response was sent.
-/

namespace CppHttpd

open CppHttpd.Foundation RequestParser

variable {W : Type*}

/-! ## What reads come to -/

/-- The requests that reads complete, and the beginning of the next one. -/
structure Intake where
  requests : List HttpRequest := []
  /-- `none` once nothing is read any more. -/
  next : Option RequestParser := some {}

namespace Intake

def take (intake : Intake) (data : Bytes) : Intake :=
  match intake.next with
  | none => intake
  | some p =>
      let p := p.feed data
      if p.hasRequest then
        { requests := intake.requests ++ [p.request]
          next := if wantsClose p.request then none else some {} }
      else if p.hasError then { intake with next := none }
      else { intake with next := some p }

def ofReads (reads : List Bytes) : Intake := reads.foldl take {}

theorem foldl_take_none (requests : List HttpRequest) (reads : List Bytes) :
    reads.foldl take { requests := requests, next := none } = { requests, next := none } := by
  induction reads with
  | nil => rfl
  | cons data reads ih => exact ih

/-- A connection that is alone on its loop, its responses being written at once. -/
theorem foldl_take_some (h : Handler W) (clientIp : Bytes) (w : W) (requests : List HttpRequest)
    (p : RequestParser) {reads : List Bytes} (hreads : ∀ data ∈ reads, data ≠ []) :
    reads.foldl take { requests := requests, next := some p } =
      { requests := requests ++ handed (selectServed h clientIp w p reads).actions
        next := (selectServed h clientIp w p reads).blocked } := by
  induction reads generalizing w requests p with
  | nil => simp [selectServed, handed]
  | cons data reads ih =>
      obtain ⟨hdata, hreads⟩ := List.forall_mem_cons.1 hreads
      rw [List.foldl_cons, selectServed, if_neg hdata, take]
      dsimp only
      split_ifs with hrequest hclose herror
      · simp [foldl_take_none, handed]
      · rw [ih (processRequest h w clientIp (p.feed data).request).2 _ _ hreads]
        simp [handed]
      · simp [foldl_take_none, handed]
      · exact ih _ _ _ hreads

theorem ofReads_eq (h : Handler W) (clientIp : Bytes) (w : W) {reads : List Bytes}
    (hreads : ∀ data ∈ reads, data ≠ []) :
    ofReads reads =
      { requests := handed (selectServed h clientIp w {} reads).actions
        next := (selectServed h clientIp w {} reads).blocked } :=
  foldl_take_some h clientIp w [] {} hreads

theorem ofReads_concat (reads : List Bytes) (data : Bytes) :
    ofReads (reads ++ [data]) = (ofReads reads).take data := List.foldl_concat ..

end Intake

/-- The body, if there is one, is a part of its file. -/
def ResponsePackage.BodyFits (package : ResponsePackage) (files : Fd → OpenFile) : Prop :=
  ∀ fd, package.bodyFd = some fd → 0 ≤ package.bodyFdOffset ∧ 0 ≤ package.bodyFdSize ∧
    package.bodyFdOffset + package.bodyFdSize ≤ (files fd).content.length

/-- A response on its way; what was sent of it depends on the file that its body is from. -/
structure Exchange where
  request : HttpRequest
  package : ResponsePackage
  sent : (Fd → OpenFile) → Bytes := fun _ => []

namespace Exchange

def ofAction : Action → Option Exchange
  | .answered request package => some { request, package }
  | .refused _ => none

/-- A call of `process_writable` sends some more of the response. -/
def send (e : Exchange) (c : ConnState) (write : SendResult) (sendfiles : List SendResult) :
    Exchange where
  request := e.request
  package := e.package
  sent files := e.sent files ++ processWritableSends files c write sendfiles

def Whole (e : Exchange) : Prop :=
  ∀ files, e.package.BodyFits files → e.sent files = responseBytes files e.package

/-- What `c` still has to send is what is missing. -/
structure Underway (e : Exchange) (c : ConnState) : Prop where
  closes : c.closeAfterWrite = e.package.closeAfter
  resumable : ∀ files, e.package.BodyFits files → c.Resumable files
  rest : ∀ files, e.package.BodyFits files →
    e.sent files ++ c.toSend files = responseBytes files e.package

/-- No more than the response was sent. -/
def Begun (e : Exchange) : Prop :=
  ∀ files, e.package.BodyFits files → e.sent files <+: responseBytes files e.package

theorem Whole.begun {e : Exchange} (h : e.Whole) : e.Begun := fun files hbody =>
  h files hbody ▸ List.prefix_refl _

theorem Underway.begun {e : Exchange} {c : ConnState} (h : e.Underway c) : e.Begun :=
  fun files hbody => ⟨_, h.rest files hbody⟩

end Exchange

/-! ## Histories -/

structure History where
  /-- What the peer has sent. -/
  arrived : Bytes := []
  /-- What `read` returned, where it returned something. -/
  reads : List Bytes := []
  /-- The newest is the first. -/
  exchanges : List Exchange := []

namespace History

def requests (hist : History) : List HttpRequest :=
  (hist.exchanges.map Exchange.request).reverse

def afterRead (hist : History) (h : Handler W) (w : W) (c : ConnState) :
    ReadResult → History
  | .ok data =>
      if data = [] then hist
      else
        { hist with
          reads := hist.reads ++ [data]
          exchanges := (processReadable h w c (.ok data)).actions.filterMap Exchange.ofAction ++
            hist.exchanges }
  | _ => hist

def afterWrite (hist : History) (c : ConnState) (write : SendResult)
    (sendfiles : List SendResult) : History :=
  match hist.exchanges with
  | [] => hist
  | e :: older =>
      { hist with exchanges := e.send c write sendfiles :: older }

def arrive (hist : History) (data : Bytes) : History :=
  { hist with arrived := hist.arrived ++ data }

/-- What a step of the worker does for the connection `fd`. -/
def step (h : Handler W) (fd : Fd) (s : LoopState W) (l : LoopLabel) (hist : History) :
    History :=
  match l, s.stage with
  | .arrive fd' data, _ =>
      if fd' = fd then hist.arrive data else hist
  | .accept fd' _ socket _, _ => if fd' = fd then { arrived := socket.unread } else hist
  | .handle write sendfiles _, .serving (event :: _) _ =>
      if event.fd = fd then
        match s.conns fd with
        | none => hist
        | some c =>
            if c.phase = .reading ∧ event.readable then
              hist.afterRead h s.world c ((s.sockets fd).read READ_BUF_SIZE).1
            else if c.phase = .writing ∧ event.writable then hist.afterWrite c write sendfiles
            else hist
      else hist
  | _, _ => hist

def ofTrace (h : Handler W) (fd : Fd) : List (LoopState W × LoopLabel) → History
  | [] => {}
  | (s, l) :: trace => step h fd s l (ofTrace h fd trace)

/-- What is true of a connection and its history while the connection is open. -/
inductive Agrees (hist : History) (c : ConnState) : Prop
  | reading (hphase : c.phase = .reading)
      (hnext : (Intake.ofReads hist.reads).next = some c.parser)
      (hwhole : ∀ e ∈ hist.exchanges, e.Whole)
  | writing {e : Exchange} {older : List Exchange} (hphase : c.phase = .writing)
      (hexchanges : hist.exchanges = e :: older) (hwhole : ∀ e ∈ older, e.Whole)
      (hunderway : e.Underway c)
      (hnext : (Intake.ofReads hist.reads).next = if c.closeAfterWrite then none else some {})

/-- What is true of them in any case. -/
structure Accounts (hist : History) (h : Handler W) (c : ConnState) (socket : Socket) :
    Prop where
  bytes : hist.reads.flatten ++ socket.unread = hist.arrived
  nonempty : ∀ data ∈ hist.reads, data ≠ []
  requests : hist.requests = (Intake.ofReads hist.reads).requests
  answered : ∀ e ∈ hist.exchanges, ∃ w, e.package = (processRequest h w c.clientIp e.request).1
  begun : ∀ e ∈ hist.exchanges, e.Begun

end History

/-! ## Calls that fail -/

def SendResult.tame : SendResult → SendResult
  | .sent n positive => .sent n positive
  | .again => .again
  | .failed => .again

theorem SendResult.tame_ne_failed (result : SendResult) : result.tame ≠ .failed := by
  cases result <;> exact nofun

section

variable (c : ConnState) (write : SendResult) (sendfiles : List SendResult)

theorem writePendingSends_tame : writePendingSends c write.tame = writePendingSends c write := by
  cases write <;> rfl

theorem writePending_tame :
    writePending c write.tame = writePending c write ∨
      writePending c write = .error (true, c) ∧ writePending c write.tame = .error (false, c) := by
  cases write with
  | sent n positive => exact .inl rfl
  | again => exact .inl rfl
  | failed =>
      unfold writePending
      split_ifs
      · exact .inr ⟨rfl, rfl⟩
      · exact .inl rfl

theorem sendBodySends_tame (file : OpenFile) :
    sendBodySends file c (sendfiles.map .tame) = sendBodySends file c sendfiles := by
  induction sendfiles generalizing c with
  | nil => rfl
  | cons result results ih =>
      cases result with
      | sent n positive =>
          simp only [List.map_cons, SendResult.tame, sendBodySends, ih]
      | again => rfl
      | failed => rfl

theorem sendBody_tame :
    sendBody c (sendfiles.map .tame) = sendBody c sendfiles ∨
      ∃ c', sendBody c sendfiles = .error (true, c') := by
  induction sendfiles generalizing c with
  | nil => exact .inl rfl
  | cons result results ih =>
      cases result with
      | sent n positive =>
          simp only [List.map_cons, SendResult.tame, sendBody]
          split_ifs
          · exact ih _
          · exact .inl rfl
      | again => exact .inl rfl
      | failed =>
          simp only [List.map_cons, SendResult.tame, sendBody]
          split_ifs
          · exact .inr ⟨_, rfl⟩
          · exact .inl rfl

theorem processWritableSends_tame (files : Fd → OpenFile) :
    processWritableSends files c write.tame (sendfiles.map .tame) =
      processWritableSends files c write sendfiles := by
  unfold processWritableSends
  rw [writePendingSends_tame]
  rcases writePending_tame c write with heq | ⟨hfailed, hagain⟩
  · rw [heq]
    cases writePending c write with
    | error r => rfl
    | ok c' =>
        cases hfd : c'.sendfileFd with
        | none => simp [hfd]
        | some fd => simp [hfd, sendBodySends_tame]
  · rw [hfailed, hagain]

/-- Nothing has failed if the connection is kept. -/
theorem processWritable_tame {w : W}
    (hopen : (processWritable w c write sendfiles).close = false) :
    processWritable w c write.tame (sendfiles.map .tame) =
      processWritable w c write sendfiles := by
  unfold processWritable at hopen ⊢
  rcases writePending_tame c write with heq | ⟨hfailed, -⟩
  · rw [heq]
    cases hpart : writePending c write with
    | error r => rfl
    | ok c' =>
        rw [hpart] at hopen
        dsimp only [bind, Except.bind] at hopen ⊢
        by_cases hsome : c'.sendfileFd.isSome = true
        · simp only [hsome, if_true] at hopen ⊢
          rcases sendBody_tame c' sendfiles with heq | ⟨c'', hfailed⟩
          · rw [heq]
          · rw [hfailed] at hopen
            cases hopen
        · simp only [hsome, if_false, Bool.false_eq_true]
  · rw [hfailed] at hopen
    cases hopen

variable {c write sendfiles}

theorem SendResult.Within.tame {asked : Nat} (h : write.Within asked) :
    write.tame.Within asked := by
  cases write with
  | sent n positive => exact h
  | again => trivial
  | failed => trivial

theorem SendfilesWithin.tame {size : Int} (h : SendfilesWithin size sendfiles) :
    SendfilesWithin size (sendfiles.map .tame) := by
  induction sendfiles generalizing size with
  | nil => trivial
  | cons result results ih =>
      cases result with
      | sent n positive => exact ⟨h.1, ih h.2⟩
      | again => trivial
      | failed => trivial

/-- What is put on the socket is put there whether a later call fails or not. -/
theorem callSends_tame (w : W) {files : Fd → OpenFile} (h : c.Resumable files)
    (hwrite : write.Within (c.writeBuf.length - c.writeOffset))
    (hsendfiles : SendfilesWithin c.sendfileSize sendfiles) :
    CallSends files c (processWritableSends files c write sendfiles)
      (processWritable w c write.tame (sendfiles.map .tame)) := by
  have hsucceeds : Succeeds write.tame (sendfiles.map .tame) := by
    refine ⟨write.tame_ne_failed, fun hmem => ?_⟩
    obtain ⟨result, -, hfailed⟩ := List.mem_map.1 hmem
    exact result.tame_ne_failed hfailed
  rw [← processWritableSends_tame]
  exact processWritable_sends w h hwrite.tame hsendfiles.tame hsucceeds

/-- The poller is told to wait for another request once all of the response is sent. -/
theorem CallSends.all_of_modify {files : Fd → OpenFile} {sent : Bytes} {turn : ConnTurn W}
    (h : CallSends files c sent turn) (hmodify : turn.modify.isSome = true) :
    sent = c.toSend files := by
  cases h with
  | waits => cases hmodify
  | closes hsent => exact hsent
  | resets hsent => exact hsent

end

/-! ## One call for the connection -/

section

variable {h : Handler W} {w : W} {hist : History} {c : ConnState} {socket : Socket}

theorem Exchange.underway_answering (request : HttpRequest) (package : ResponsePackage)
    (c : ConnState) (parser : RequestParser) :
    Exchange.Underway { request, package } (c.answering parser package) where
  closes := rfl
  resumable _ hbody := ⟨rfl, Nat.zero_le _, hbody⟩
  rest _ _ := rfl

theorem History.Accounts.withSocket (hacc : hist.Accounts h c socket) {c' : ConnState}
    {socket' : Socket} (hip : c'.clientIp = c.clientIp)
    (hunread : socket'.unread = socket.unread) : hist.Accounts h c' socket' where
  bytes := hunread ▸ hacc.bytes
  nonempty := hacc.nonempty
  requests := hacc.requests
  answered := hip ▸ hacc.answered
  begun := hacc.begun

theorem History.afterRead_ok {data : Bytes} (hdata : data ≠ []) :
    hist.afterRead h w c (.ok data) =
      { hist with
        reads := hist.reads ++ [data]
        exchanges := (processReadable h w c (.ok data)).actions.filterMap Exchange.ofAction ++
          hist.exchanges } := if_neg hdata

theorem History.afterWrite_cons {e : Exchange} {older : List Exchange}
    (h : hist.exchanges = e :: older) (write : SendResult) (sendfiles : List SendResult) :
    hist.afterWrite c write sendfiles =
      { hist with exchanges := e.send c write sendfiles :: older } := by
  unfold afterWrite
  rw [h]

theorem History.Accounts.arrive (hacc : hist.Accounts h c socket) (data : Bytes) :
    (hist.arrive data).Accounts h c { socket with unread := socket.unread ++ data } where
  bytes := by
    change hist.reads.flatten ++ (socket.unread ++ data) = hist.arrived ++ data
    rw [← List.append_assoc, hacc.bytes]
  nonempty := hacc.nonempty
  requests := hacc.requests
  answered := hacc.answered
  begun := hacc.begun

theorem History.Agrees.arrive (hagrees : hist.Agrees c) (data : Bytes) :
    (hist.arrive data).Agrees c := by
  cases hagrees with
  | reading hphase hnext hwhole => exact .reading hphase hnext hwhole
  | writing hphase hexchanges hwhole hunderway hnext =>
      exact .writing hphase hexchanges hwhole hunderway hnext

/-- Some of what has arrived is read and fed to the parser. -/
theorem History.afterRead_data (hacc : hist.Accounts h c socket)
    (hnext : (Intake.ofReads hist.reads).next = some c.parser)
    (hwhole : ∀ e ∈ hist.exchanges, e.Whole) (hphase : c.phase = .reading) {data rest : Bytes}
    (hdata : data ≠ []) (hrest : data ++ rest = socket.unread) {socket' : Socket}
    (hunread : socket'.unread = rest) :
    (hist.afterRead h w c (.ok data)).Accounts h (processReadable h w c (.ok data)).state socket' ∧
      ((processReadable h w c (.ok data)).close = false →
        (hist.afterRead h w c (.ok data)).Agrees (processReadable h w c (.ok data)).state) := by
  have hbytes : (hist.reads ++ [data]).flatten ++ socket'.unread = hist.arrived := by
    rw [hunread, List.flatten_concat, List.append_assoc, hrest]
    exact hacc.bytes
  have hnonempty : ∀ piece ∈ hist.reads ++ [data], piece ≠ [] :=
    List.forall_mem_append.2 ⟨hacc.nonempty, List.forall_mem_singleton.2 hdata⟩
  have htake : Intake.ofReads (hist.reads ++ [data]) = (Intake.ofReads hist.reads).take data :=
    Intake.ofReads_concat _ _
  have hrequests := hacc.requests
  unfold Intake.take at htake
  rw [hnext] at htake
  dsimp only at htake
  have hout := processReadable_outcome h w c data
  rw [afterRead_ok hdata]
  generalize processReadable h w c (.ok data) = turn at hout ⊢
  cases hout with
  | ended hempty => exact absurd hempty hdata
  | @answers _ package _ _ hdone hprocess hstate =>
      have hhas : (c.parser.feed data).hasRequest = true := by simp [hasRequest, hdone]
      rw [if_pos hhas] at htake
      have hclose : package.closeAfter = wantsClose (c.parser.feed data).request := by
        rw [← processRequest_closeAfter h w c.clientIp, hprocess]
      subst hstate
      have hunderway := Exchange.underway_answering (c.parser.feed data).request package c
        (c.parser.feed data).getRequest.2
      refine ⟨⟨hbytes, hnonempty, ?_, ?_, ?_⟩, fun _ => .writing rfl rfl hwhole hunderway ?_⟩
      · rw [htake, ← hrequests]
        simp [requests, Exchange.ofAction]
      · refine List.forall_mem_cons.2 ⟨⟨w, ?_⟩, hacc.answered⟩
        exact (congrArg Prod.fst hprocess).symm
      · exact List.forall_mem_cons.2 ⟨hunderway.begun, hacc.begun⟩
      · rw [htake]
        simp only [ConnState.answering, hclose]
  | refuses _ herr hstate =>
      have hhas : (c.parser.feed data).hasRequest = false := by simp [hasRequest, herr]
      have hbad : (c.parser.feed data).hasError = true := by simp [hasError, herr]
      rw [if_neg (by simp [hhas]), if_pos hbad] at htake
      subst hstate
      exact ⟨⟨hbytes, hnonempty, by rw [htake]; exact hrequests, hacc.answered, hacc.begun⟩,
        fun hopen => by cases hopen⟩
  | waits _ hdone herr hstate =>
      have hhas : (c.parser.feed data).hasRequest = false := by simp [hasRequest, hdone]
      have hbad : (c.parser.feed data).hasError = false := by simp [hasError, herr]
      rw [if_neg (by simp [hhas]), if_neg (by simp [hbad])] at htake
      subst hstate
      exact ⟨⟨hbytes, hnonempty, by rw [htake]; exact hrequests, hacc.answered, hacc.begun⟩,
        fun _ => .reading hphase (by rw [htake]) hwhole⟩

theorem History.afterRead_read (hacc : hist.Accounts h c socket) (hagrees : hist.Agrees c)
    (hphase : c.phase = .reading) :
    let (result, socket') := socket.read READ_BUF_SIZE
    (hist.afterRead h w c result).Accounts h (processReadable h w c result).state socket' ∧
      ((processReadable h w c result).close = false →
        (hist.afterRead h w c result).Agrees (processReadable h w c result).state) := by
  cases hagrees with
  | writing hwriting => cases hphase.symm.trans hwriting
  | reading _ hnext hwhole =>
      unfold Socket.read
      split_ifs with hunread hended
      · have hdata : socket.unread.take READ_BUF_SIZE ≠ [] := by
          rw [ne_eq, List.take_eq_nil_iff, not_or]
          exact ⟨by decide, hunread⟩
        exact afterRead_data hacc hnext hwhole hphase hdata (List.take_append_drop _ _) rfl
      · exact ⟨hacc, fun hopen => by cases hopen⟩
      · exact ⟨hacc, fun _ => .reading hphase hnext hwhole⟩

theorem Exchange.begun_send {e : Exchange} (hunderway : e.Underway c) {write : SendResult}
    {sendfiles : List SendResult} (hwrite : write.Within (c.writeBuf.length - c.writeOffset))
    (hsendfiles : SendfilesWithin c.sendfileSize sendfiles) :
    (e.send c write sendfiles).Begun := by
  intro files hbody
  have hsends := callSends_tame () (hunderway.resumable files hbody) hwrite hsendfiles
  have hrest := hunderway.rest files hbody
  have hbegins : processWritableSends files c write sendfiles <+: c.toSend files := by
    generalize processWritable () c write.tame (sendfiles.map .tame) = turn at hsends
    cases hsends with
    | waits hsent => exact ⟨_, hsent⟩
    | closes hsent => exact hsent ▸ List.prefix_refl _
    | resets hsent => exact hsent ▸ List.prefix_refl _
  change e.sent files ++ _ <+: responseBytes files e.package
  rw [← hrest]
  exact (List.prefix_append_right_inj _).2 hbegins

/-- Some of the response is sent. -/
theorem History.afterWrite_turn (hacc : hist.Accounts h c socket) (hagrees : hist.Agrees c)
    (hphase : c.phase = .writing) {write : SendResult} {sendfiles : List SendResult}
    (hwrite : write.Within (c.writeBuf.length - c.writeOffset))
    (hsendfiles : SendfilesWithin c.sendfileSize sendfiles) {socket' : Socket}
    (hunread : socket'.unread = socket.unread) :
    (hist.afterWrite c write sendfiles).Accounts h (processWritable w c write sendfiles).state
        socket' ∧
      ((processWritable w c write sendfiles).close = false →
        (hist.afterWrite c write sendfiles).Agrees (processWritable w c write sendfiles).state) := by
  cases hagrees with
  | reading hreading => cases hphase.symm.trans hreading
  | @writing e older _ hexchanges hwhole hunderway hnext =>
      have hsends := fun files hbody => callSends_tame w (hunderway.resumable files hbody) hwrite
        hsendfiles
      have hbegun := Exchange.begun_send hunderway hwrite hsendfiles
      have hout := processWritable_outcome w c write sendfiles
      have htame := processWritable_tame c write sendfiles (w := w)
      rw [afterWrite_cons hexchanges]
      have haccounts : ∀ c' : ConnState, c'.clientIp = c.clientIp →
          Accounts { hist with exchanges := e.send c write sendfiles :: older } h c' socket' := by
        intro c' hip
        have hall := hacc.answered
        have hbefore := hacc.begun
        have hrequests := hacc.requests
        unfold requests at hrequests
        rw [hexchanges] at hall hbefore hrequests
        exact
          { bytes := hunread ▸ hacc.bytes
            nonempty := hacc.nonempty
            requests := hrequests
            answered := hip ▸ List.forall_mem_cons.2 (List.forall_mem_cons.1 hall)
            begun := List.forall_mem_cons.2 ⟨hbegun, (List.forall_mem_cons.1 hbefore).2⟩ }
      generalize hturn : processWritable w c write sendfiles = turn at hout htame ⊢
      cases hout with
      | @waits c' course =>
          refine ⟨haccounts _ course.clientIp, fun _ => ?_⟩
          rw [htame rfl] at hsends
          have hstep : ∀ files, e.package.BodyFits files →
              processWritableSends files c write sendfiles ++ c'.toSend files = c.toSend files ∧
                c'.Resumable files := by
            intro files hbody
            cases hsends files hbody with
            | waits hsent _ hresumable _ => exact ⟨hsent, hresumable⟩
          refine .writing (course.phase.trans hphase) rfl hwhole ⟨?_, ?_, ?_⟩ ?_
          · exact course.closeAfterWrite.trans hunderway.closes
          · exact fun files hbody => (hstep files hbody).2
          · intro files hbody
            have hrest := hunderway.rest files hbody
            rw [← (hstep files hbody).1, ← List.append_assoc] at hrest
            exact hrest
          · rw [course.closeAfterWrite]
            exact hnext
      | breaks course _ => exact ⟨haccounts _ course.clientIp, fun hopen => by cases hopen⟩
      | closes course _ => exact ⟨haccounts _ course.clientIp, fun hopen => by cases hopen⟩
      | resets course hkeep =>
          refine ⟨haccounts _ course.clientIp, fun _ => ?_⟩
          rw [htame rfl] at hsends
          refine .reading rfl ?_ (List.forall_mem_cons.2 ⟨?_, hwhole⟩)
          · rw [hnext, hkeep]
            rfl
          · intro files hbody
            have hrest := hunderway.rest files hbody
            rw [← (hsends files hbody).all_of_modify rfl] at hrest
            exact hrest

end

end CppHttpd
