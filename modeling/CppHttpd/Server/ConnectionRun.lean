import CppHttpd.Http.Connection.ServedStream
import CppHttpd.Server.SelectMode

/-!
# The event loop against the thread pool

A run of one connection through the event loop takes a read whenever the
connection is reading, and writes some of the response whenever it is writing.
However the writes go, what it hands to the handler depends on the reads alone,
and differs from what a connection thread hands over by one thing: the bytes
behind a complete request are dropped with the parser that holds them.
-/

namespace CppHttpd

open CppHttpd.Foundation RequestParser

variable {W : Type*}

/-! ## Runs of one connection -/

abbrev RunEnd (W : Type*) := Option ConnState × W

/--
A run of the event loop on one connection in which every write succeeds.  It
takes the reads one at a time; those behind a close are never taken.
-/
inductive ConnRun (h : Handler W) :
    ConnState → W → List Bytes → List Action → RunEnd W → Prop
  | stop (s : ConnState) (w : W) : ConnRun h s w [] [] (some s, w)
  | read {s : ConnState} {w : W} {data : Bytes} {reads : List Bytes}
      {actions : List Action} {last : RunEnd W}
      (hphase : s.phase = .reading)
      (hopen : (processReadable h w s (.ok data)).close = false)
      (rest : ConnRun h (processReadable h w s (.ok data)).state
        (processReadable h w s (.ok data)).world reads actions last) :
      ConnRun h s w (data :: reads)
        ((processReadable h w s (.ok data)).actions ++ actions) last
  | readClose {s : ConnState} {w : W} {data : Bytes} (reads : List Bytes)
      (hphase : s.phase = .reading)
      (hclose : (processReadable h w s (.ok data)).close = true) :
      ConnRun h s w (data :: reads) (processReadable h w s (.ok data)).actions
        (none, (processReadable h w s (.ok data)).world)
  | readNothing {s : ConnState} {w : W} {reads : List Bytes}
      {actions : List Action} {last : RunEnd W}
      (hphase : s.phase = .reading)
      (rest : ConnRun h (processReadable h w s .again).state
        (processReadable h w s .again).world reads actions last) :
      ConnRun h s w reads actions last
  | write {s : ConnState} {w : W} {write : SendResult} {sendfiles : List SendResult}
      {reads : List Bytes} {actions : List Action} {last : RunEnd W}
      (hphase : s.phase = .writing) (hsucceeds : Succeeds write sendfiles)
      (hopen : (processWritable w s write sendfiles).close = false)
      (rest : ConnRun h (processWritable w s write sendfiles).state w reads actions last) :
      ConnRun h s w reads actions last
  | writeClose {s : ConnState} {w : W} {write : SendResult} {sendfiles : List SendResult}
      (reads : List Bytes)
      (hphase : s.phase = .writing) (hsucceeds : Succeeds write sendfiles)
      (hclose : (processWritable w s write sendfiles).close = true) :
      ConnRun h s w reads [] (none, w)

def Settled (last : RunEnd W) : Prop := ∀ s ∈ last.1, s.phase = .reading

/-! ## What a run comes to -/

/-- What the event loop does with the reads, responses being written at once. -/
def selectServed (h : Handler W) (clientIp : Bytes) :
    W → RequestParser → List Bytes → Served W
  | w, p, [] => ⟨[], w, some p⟩
  | w, p, data :: reads =>
      if data = [] then ⟨[], w, none⟩
      else
        let p := p.feed data
        if p.hasRequest then
          let processed := processRequest h w clientIp p.request
          if wantsClose p.request then ⟨[.answered p.request processed.1], processed.2, none⟩
          else
            let rest := selectServed h clientIp processed.2 {} reads
            { rest with actions := .answered p.request processed.1 :: rest.actions }
        else if p.hasError then
          ⟨[.refused (errorResponse h.iteration p.error)], w, none⟩
        else selectServed h clientIp w p reads

/-- What is still to come of a run, the reads being given. -/
def pending (h : Handler W) (s : ConnState) (w : W) (reads : List Bytes) : Served W :=
  match s.phase with
  | .reading => selectServed h s.clientIp w s.parser reads
  | .writing =>
      if s.closeAfterWrite then ⟨[], w, none⟩ else selectServed h s.clientIp w {} reads

theorem pending_reading {s : ConnState} (hphase : s.phase = .reading) (h : Handler W) (w : W)
    (reads : List Bytes) : pending h s w reads = selectServed h s.clientIp w s.parser reads := by
  simp [pending, hphase]

theorem pending_read (h : Handler W) (w : W) {s : ConnState} (hphase : s.phase = .reading)
    (data : Bytes) (reads : List Bytes) :
    let turn := processReadable h w s (.ok data)
    pending h s w (data :: reads) =
      if turn.close then ⟨turn.actions, turn.world, none⟩
      else
        let rest := pending h turn.state turn.world reads
        { rest with actions := turn.actions ++ rest.actions } := by
  have hout := processReadable_outcome h w s data
  generalize processReadable h w s (.ok data) = turn at hout ⊢
  rw [pending_reading hphase, selectServed]
  cases hout with
  | ended hdata => simp [hdata]
  | @answers _ package _ hdata hdone hprocess hstate =>
      subst hstate
      have hclose : package.closeAfter = wantsClose (s.parser.feed data).request := by
        rw [← processRequest_closeAfter h w s.clientIp, hprocess]
      simp only [hdata, hasRequest, hdone, hprocess, decide_true, if_true, if_false,
        Bool.false_eq_true, pending, ConnState.answering, hclose]
      split_ifs <;> rfl
  | refuses hdata herr hstate => simp [hdata, hasRequest, hasError, herr]
  | waits hdata hdone herr hstate =>
      subst hstate
      simp [hdata, hasRequest, hasError, hdone, herr, pending, hphase]

theorem pending_write (h : Handler W) (w : W) {s : ConnState} (hphase : s.phase = .writing)
    {write : SendResult} {sendfiles : List SendResult} (hsucceeds : Succeeds write sendfiles)
    (reads : List Bytes) :
    let turn := processWritable w s write sendfiles
    pending h s w reads =
      if turn.close then ⟨[], w, none⟩ else pending h turn.state w reads := by
  have hout := processWritable_outcome w s write sendfiles
  generalize processWritable w s write sendfiles = turn at hout ⊢
  cases hout with
  | waits course =>
      simp [pending, course.phase, hphase, course.closeAfterWrite, course.clientIp]
  | breaks _ hfail => exact absurd hsucceeds hfail
  | closes course hclose => simp [pending, hphase, hclose]
  | resets course hkeep =>
      simp [pending, hphase, hkeep, resetConnToReading, RequestParser.reset, course.clientIp]

/-- Where a connection stands, as a thread would be seen to stand. -/
def Served.ofRun (actions : List Action) (last : RunEnd W) : Served W :=
  ⟨actions, last.2, last.1.map ConnState.parser⟩

/-- However the responses are cut into writes, a run comes to the same. -/
theorem ConnRun.served {h : Handler W} {s : ConnState} {w : W} {reads : List Bytes}
    {actions : List Action} {last : RunEnd W} (run : ConnRun h s w reads actions last)
    (hsettled : Settled last) : Served.ofRun actions last = pending h s w reads := by
  induction run with
  | stop s w =>
      rw [pending_reading (hsettled s rfl)]
      rfl
  | @read s w data reads actions last hphase hopen _ ih =>
      rw [pending_read h w hphase, hopen, ← ih hsettled]
      rfl
  | readClose reads hphase hclose =>
      rw [pending_read h _ hphase, hclose]
      rfl
  | readNothing hphase _ ih => exact ih hsettled
  | write hphase hsucceeds hopen _ ih =>
      rw [pending_write h _ hphase hsucceeds, hopen, ih hsettled]
      rfl
  | writeClose reads hphase hsucceeds hclose =>
      rw [pending_write h _ hphase hsucceeds, hclose]
      rfl

end CppHttpd
