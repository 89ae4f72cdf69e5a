import CppHttpd.Foundation.Lines
import CppHttpd.Foundation.Transition
import Mathlib.Logic.Function.Basic

/-!
# The logger

Any number of threads share a logger.  `Logger::write` puts an entry and a line
end to the stream, one after the other, while it holds the mutex.  The stream of
a file has a buffer that may be written out at any time, `std::cerr` has none.
-/

namespace CppHttpd

open CppHttpd.Foundation

inductive LogStage where
  | outside
  /-- In `write`, without the mutex. -/
  | waiting (entry : Bytes)
  | locked (entry : Bytes)
  | entryPut (entry : Bytes)
  | linePut (entry : Bytes)
  | flushed (entry : Bytes)
  deriving DecidableEq

namespace LogStage

/-- What the thread has put to the stream since it has the mutex. -/
def put : LogStage → Bytes
  | entryPut entry => entry
  | linePut entry => entry ++ [LF]
  | flushed entry => entry ++ [LF]
  | _ => []

def inside : LogStage → Bool
  | outside => false
  | waiting _ => false
  | _ => true

/-- The entry that the thread was called with. -/
def entries : LogStage → List Bytes
  | outside => []
  | waiting entry => [entry]
  | locked entry => [entry]
  | entryPut entry => [entry]
  | linePut entry => [entry]
  | flushed entry => [entry]

end LogStage

structure Logger (ι : Type*) where
  toFile : Bool
  mutex : Option ι := none
  buffer : Bytes := []
  /-- What is in the file, or was written to `stderr`. -/
  out : Bytes := []
  threads : ι → LogStage := fun _ => .outside

inductive LoggerLabel (ι : Type*) where
  | call (i : ι) (entry : Bytes)
  | lock (i : ι)
  | putEntry (i : ι)
  | putEnd (i : ι)
  | flush (i : ι)
  /-- `write` returns. -/
  | unlock (i : ι)
  /-- The stream writes out a part of its buffer. -/
  | spill (n : Nat)

namespace Logger

variable {ι : Type*} [DecidableEq ι]

def setThread (s : Logger ι) (i : ι) (stage : LogStage) : Logger ι :=
  { s with threads := Function.update s.threads i stage }

/-- `<<` on the stream. -/
def put (s : Logger ι) (text : Bytes) : Logger ι :=
  if s.toFile then { s with buffer := s.buffer ++ text } else { s with out := s.out ++ text }

def step (s : Logger ι) : LoggerLabel ι → Option (Logger ι)
  | .call i entry =>
      match s.threads i with
      | .outside => some (s.setThread i (.waiting entry))
      | _ => none
  | .lock i =>
      match s.threads i with
      | .waiting entry =>
          if s.mutex.isSome then none
          else some { s.setThread i (.locked entry) with mutex := some i }
      | _ => none
  | .putEntry i =>
      match s.threads i with
      | .locked entry => some ((s.put entry).setThread i (.entryPut entry))
      | _ => none
  | .putEnd i =>
      match s.threads i with
      | .entryPut entry => some ((s.put [LF]).setThread i (.linePut entry))
      | _ => none
  | .flush i =>
      match s.threads i with
      | .linePut entry =>
          if s.toFile then
            some { s.setThread i (.flushed entry) with out := s.out ++ s.buffer, buffer := [] }
          else none
      | _ => none
  | .unlock i =>
      match s.threads i with
      | .linePut _ =>
          if s.toFile then none else some { s.setThread i .outside with mutex := none }
      | .flushed _ => some { s.setThread i .outside with mutex := none }
      | _ => none
  | .spill n =>
      if n ≤ s.buffer.length then
        some { s with out := s.out ++ s.buffer.take n, buffer := s.buffer.drop n }
      else none

end Logger

/-- A logger that has opened a file with this text, or `stderr` with this text before it. -/
def logger (ι : Type*) [DecidableEq ι] (toFile : Bool) (old : Bytes) :
    Machine (Logger ι) (LoggerLabel ι) where
  init s := s = { toFile := toFile, out := old }
  step s l := s.step l

/-! ## What was logged -/

/-- Who called `write` with what, and for which of these calls it has returned. -/
structure LogHistory (ι : Type*) where
  calls : List (ι × Bytes) := []
  lines : List (ι × Bytes) := []

namespace LogHistory

variable {ι : Type*} [DecidableEq ι]

def step (s : Logger ι) (l : LoggerLabel ι) (hist : LogHistory ι) : LogHistory ι :=
  match l with
  | .call i entry => { hist with calls := hist.calls ++ [(i, entry)] }
  | .unlock i =>
      { hist with lines := hist.lines ++ (s.threads i).entries.map fun entry => (i, entry) }
  | _ => hist

def ofTrace : List (Logger ι × LoggerLabel ι) → LogHistory ι
  | [] => {}
  | (s, l) :: trace => step s l (ofTrace trace)

/-- The lines with their ends. -/
def text (hist : LogHistory ι) : Bytes := hist.lines.flatMap fun line => line.2 ++ [LF]

/-- What a thread was called with, or has written. -/
def of (i : ι) (list : List (ι × Bytes)) : List Bytes :=
  (list.filter fun line => line.1 = i).map Prod.snd

/-- What the thread that has the mutex has put to the stream. -/
def underway (s : Logger ι) : Bytes := s.mutex.elim [] fun i => (s.threads i).put

omit [DecidableEq ι] in
/-- A thread writes its entry, and then the end of the line. -/
theorem underway_cases (s : Logger ι) : underway s = [] ∨
    ∃ i entry, s.mutex = some i ∧ (s.threads i).entries = [entry] ∧
      (underway s = entry ∨ underway s = entry ++ [LF]) := by
  unfold underway
  cases hmutex : s.mutex with
  | none => exact .inl rfl
  | some i =>
      cases hstage : s.threads i <;>
        simp [hstage, LogStage.put, LogStage.entries]

/-- The stream has whole lines, and behind them what is put there at the moment. -/
structure Serial (hist : LogHistory ι) (old : Bytes) (s : Logger ι) : Prop where
  holder : ∀ i, (s.threads i).inside = true ↔ s.mutex = some i
  out : ∃ written, s.out = old ++ hist.text ++ written ∧ written ++ s.buffer = underway s
  unbuffered : s.toFile = false → s.buffer = []
  flushed : ∀ i entry, s.threads i = .flushed entry → s.buffer = []
  calls : ∀ i, of i hist.calls = of i hist.lines ++ (s.threads i).entries

section

variable {hist : LogHistory ι} {old : Bytes} {s s' : Logger ι} {i : ι} {stage : LogStage}

theorem of_append (i : ι) (list list' : List (ι × Bytes)) :
    of i (list ++ list') = of i list ++ of i list' := by
  simp [of]

theorem of_map (i j : ι) (entries : List Bytes) :
    of j (entries.map fun entry => (i, entry)) = if i = j then entries else [] := by
  induction entries with
  | nil => simp [of]
  | cons entry entries ih =>
      rw [List.map_cons, ← List.singleton_append, of_append, ih]
      by_cases h : i = j <;> simp [of, h]

omit [DecidableEq ι] in
theorem text_append (hist : LogHistory ι) (i : ι) (entry : Bytes) :
    ({ hist with lines := hist.lines ++ [(i, entry)] } : LogHistory ι).text =
      hist.text ++ (entry ++ [LF]) := by
  simp [text]

theorem serial_init (toFile : Bool) (old : Bytes) :
    Serial {} old { toFile := toFile, out := old : Logger ι } where
  holder := fun i => by simp [LogStage.inside]
  out := ⟨[], by simp [text], rfl⟩
  unbuffered := fun _ => rfl
  flushed := fun _ _ _ => rfl
  calls := fun _ => rfl

theorem Serial.others (h : Serial hist old s) (hmine : s.mutex = some i) (j : ι) (hj : j ≠ i) :
    (s.threads j).inside = false := by
  by_contra hother
  have hheld := (h.holder j).1 (by simpa using hother)
  rw [hmine] at hheld
  exact hj (Option.some.inj hheld).symm

/-- A thread that has the mutex goes on: the others wait. -/
theorem Serial.goOn (h : Serial hist old s) (hinside : (s.threads i).inside = true)
    (hstage : stage.inside = true) (hentries : stage.entries = (s.threads i).entries)
    (hthreads : s'.threads = Function.update s.threads i stage) (hmutex : s'.mutex = s.mutex)
    (hunbuffered : s'.toFile = false → s'.buffer = [])
    (hflushed : ∀ entry, stage = .flushed entry → s'.buffer = [])
    (hout : ∀ written, s.out = old ++ hist.text ++ written →
      written ++ s.buffer = (s.threads i).put →
      ∃ written', s'.out = old ++ hist.text ++ written' ∧
        written' ++ s'.buffer = stage.put) :
    Serial hist old s' := by
  have hmine : s.mutex = some i := (h.holder i).1 hinside
  have hothers := h.others hmine
  refine ⟨fun j => ?_, ?_, hunbuffered, fun j entry hj => ?_, fun j => ?_⟩
  · rw [hthreads, hmutex]
    by_cases hji : j = i
    · subst hji
      simp [hstage, hmine]
    · rw [Function.update_of_ne hji]
      exact h.holder j
  · obtain ⟨written, hwritten, hput⟩ := h.out
    rw [underway, hmine] at hput
    obtain ⟨written', hwritten', hput'⟩ := hout written hwritten hput
    refine ⟨written', hwritten', ?_⟩
    rw [underway, hmutex, hmine, hthreads]
    simpa using hput'
  · rw [hthreads] at hj
    by_cases hji : j = i
    · subst hji
      rw [Function.update_self] at hj
      exact hflushed entry hj
    · rw [Function.update_of_ne hji] at hj
      have hfree := hothers j hji
      rw [hj] at hfree
      cases hfree
  · rw [hthreads, h.calls]
    by_cases hji : j = i
    · subst hji
      rw [Function.update_self, hentries]
    · rw [Function.update_of_ne hji]

/-- `<<` on the stream of a thread that has the mutex. -/
theorem Serial.put (h : Serial hist old s) (hinside : (s.threads i).inside = true)
    (hstage : stage.inside = true) (hentries : stage.entries = (s.threads i).entries)
    (hopen : ∀ entry, stage ≠ .flushed entry) {text : Bytes}
    (hput : stage.put = (s.threads i).put ++ text) :
    Serial hist old ((s.put text).setThread i stage) := by
  cases hfile : s.toFile with
  | true =>
      have hs' : (s.put text).setThread i stage =
          { s with
            buffer := s.buffer ++ text
            threads := Function.update s.threads i stage } := by
        simp [Logger.put, Logger.setThread, hfile]
      rw [hs']
      refine h.goOn hinside hstage hentries rfl rfl (fun hcerr => ?_)
        (fun entry hstage => absurd hstage (hopen entry)) fun written hwritten hbefore => ?_
      · rw [hfile] at hcerr
        cases hcerr
      · refine ⟨written, hwritten, ?_⟩
        rw [hput, ← hbefore, List.append_assoc]
  | false =>
      have hs' : (s.put text).setThread i stage =
          { s with
            out := s.out ++ text
            threads := Function.update s.threads i stage } := by
        simp [Logger.put, Logger.setThread, hfile]
      rw [hs']
      have hempty := h.unbuffered hfile
      refine h.goOn hinside hstage hentries rfl rfl (fun _ => hempty)
        (fun entry hstage => absurd hstage (hopen entry)) fun written hwritten hbefore => ?_
      refine ⟨written ++ text, ?_, ?_⟩
      · rw [hwritten, List.append_assoc]
      · rw [hempty, List.append_nil] at hbefore ⊢
        rw [hput, hbefore]

theorem Serial.call (h : Serial hist old s) (hstage : s.threads i = .outside) (entry : Bytes) :
    Serial { hist with calls := hist.calls ++ [(i, entry)] } old
      (s.setThread i (.waiting entry)) := by
  have hfree : s.mutex ≠ some i := fun hmine => by
    have hinside := (h.holder i).2 hmine
    rw [hstage] at hinside
    cases hinside
  refine ⟨fun j => ?_, ?_, h.unbuffered, fun j entry' hj => ?_, fun j => ?_⟩
  · by_cases hji : j = i
    · subst hji
      simp [Logger.setThread, LogStage.inside, hfree]
    · simpa [Logger.setThread, Function.update_of_ne hji] using h.holder j
  · obtain ⟨written, hwritten, hput⟩ := h.out
    refine ⟨written, hwritten, hput.trans ?_⟩
    unfold underway
    cases hmutex : s.mutex with
    | none => simp [Logger.setThread, hmutex]
    | some j =>
        have hji : j ≠ i := fun heq => hfree (heq ▸ hmutex)
        simp [Logger.setThread, hmutex, Function.update_of_ne hji]
  · by_cases hji : j = i
    · subst hji
      simp [Logger.setThread] at hj
    · exact h.flushed j entry' (by simpa [Logger.setThread, Function.update_of_ne hji] using hj)
  · have hcall := of_map i j [entry]
    rw [List.map_singleton] at hcall
    rw [of_append, h.calls, hcall]
    by_cases hji : j = i
    · subst hji
      simp [Logger.setThread, hstage, LogStage.entries]
    · simp [Logger.setThread, Function.update_of_ne hji, Ne.symm hji]

theorem Serial.lock (h : Serial hist old s) {entry : Bytes} (hstage : s.threads i = .waiting entry)
    (hmutex : s.mutex = none) :
    Serial hist old { s.setThread i (.locked entry) with mutex := some i } := by
  have hnone : ∀ j, (s.threads j).inside = false := fun j => by
    have hheld := h.holder j
    rw [hmutex] at hheld
    simpa using hheld
  obtain ⟨written, hwritten, hput⟩ := h.out
  rw [underway, hmutex] at hput
  refine ⟨fun j => ?_, ⟨written, hwritten, ?_⟩, h.unbuffered, fun j entry' hj => ?_,
    fun j => ?_⟩
  · by_cases hji : j = i
    · subst hji
      simp [Logger.setThread, LogStage.inside]
    · simp [Logger.setThread, Function.update_of_ne hji, hnone j, Ne.symm hji]
  · simpa [underway, Logger.setThread, LogStage.put] using hput
  · by_cases hji : j = i
    · subst hji
      simp [Logger.setThread] at hj
    · exact h.flushed j entry' (by simpa [Logger.setThread, Function.update_of_ne hji] using hj)
  · rw [h.calls]
    by_cases hji : j = i
    · subst hji
      simp [Logger.setThread, hstage, LogStage.entries]
    · simp [Logger.setThread, Function.update_of_ne hji]

/-- A line is whole when the mutex is free again. -/
theorem Serial.unlock (h : Serial hist old s) {entry : Bytes}
    (hinside : (s.threads i).inside = true) (hentries : (s.threads i).entries = [entry])
    (hput : (s.threads i).put = entry ++ [LF]) (hbuffer : s.buffer = []) :
    Serial { hist with lines := hist.lines ++ [(i, entry)] } old
      { s.setThread i .outside with mutex := none } := by
  have hmine : s.mutex = some i := (h.holder i).1 hinside
  obtain ⟨written, hwritten, hline⟩ := h.out
  rw [underway, hmine, Option.elim_some, hput, hbuffer, List.append_nil] at hline
  have hothers := h.others hmine
  refine ⟨fun j => ?_, ⟨[], ?_, ?_⟩, fun _ => hbuffer, fun _ _ _ => hbuffer, fun j => ?_⟩
  · by_cases hji : j = i
    · subst hji
      simp [Logger.setThread, LogStage.inside]
    · simp [Logger.setThread, Function.update_of_ne hji, hothers j hji]
  · rw [text_append]
    simp [Logger.setThread, hwritten, hline]
  · simpa [underway, Logger.setThread] using hbuffer
  · have hreturn := of_map i j [entry]
    rw [List.map_singleton] at hreturn
    rw [h.calls, of_append, hreturn]
    by_cases hji : j = i
    · subst hji
      simp only [Logger.setThread, Function.update_self, hentries, if_true, List.append_assoc]
      rfl
    · simp [Logger.setThread, Function.update_of_ne hji, Ne.symm hji]

/-- The buffer goes on holding what is missing in the file. -/
theorem Serial.spill (h : Serial hist old s) {n : Nat} :
    Serial hist old { s with out := s.out ++ s.buffer.take n, buffer := s.buffer.drop n } := by
  obtain ⟨written, hwritten, hput⟩ := h.out
  have hdrop : s.buffer = [] → s.buffer.drop n = [] := fun hempty => by simp [hempty]
  refine ⟨h.holder, ⟨written ++ s.buffer.take n, ?_, ?_⟩, fun hcerr => hdrop (h.unbuffered hcerr),
    fun j entry hj => hdrop (h.flushed j entry hj), h.calls⟩
  · rw [hwritten, List.append_assoc]
  · rw [List.append_assoc, List.take_append_drop]
    exact hput

theorem Serial.flush (h : Serial hist old s) {entry : Bytes}
    (hstage : s.threads i = .linePut entry) :
    Serial hist old
      { s.setThread i (.flushed entry) with out := s.out ++ s.buffer, buffer := [] } := by
  have hinside : (s.threads i).inside = true := by
    rw [hstage]
    rfl
  have hentries : (LogStage.flushed entry).entries = (s.threads i).entries := by
    rw [hstage]
    rfl
  refine h.goOn hinside rfl hentries rfl rfl (fun _ => rfl) (fun _ _ => rfl)
    fun written hwritten hbefore => ⟨written ++ s.buffer, ?_, ?_⟩
  · rw [hwritten, List.append_assoc]
  · rw [List.append_nil, hbefore, hstage]
    rfl

theorem Serial.step (h : Serial hist old s) {l : LoggerLabel ι} (hstep : s.step l = some s') :
    Serial (LogHistory.step s l hist) old s' := by
  cases l with
  | call i entry =>
      cases hstage : s.threads i <;> simp only [Logger.step, hstage] at hstep <;> cases hstep
      exact h.call hstage entry
  | lock i =>
      cases hstage : s.threads i <;> simp only [Logger.step, hstage] at hstep <;>
        try cases hstep
      split_ifs at hstep with hmutex
      cases hstep
      exact h.lock hstage (by simpa using hmutex)
  | putEntry i =>
      cases hstage : s.threads i <;> simp only [Logger.step, hstage] at hstep <;> cases hstep
      exact h.put (by rw [hstage]; rfl) rfl (by rw [hstage]; rfl) (fun _ => by simp)
        (by rw [hstage]; rfl)
  | putEnd i =>
      cases hstage : s.threads i <;> simp only [Logger.step, hstage] at hstep <;> cases hstep
      exact h.put (by rw [hstage]; rfl) rfl (by rw [hstage]; rfl) (fun _ => by simp)
        (by rw [hstage]; rfl)
  | flush i =>
      cases hstage : s.threads i <;> simp only [Logger.step, hstage] at hstep <;>
        try cases hstep
      split_ifs at hstep
      cases hstep
      exact h.flush hstage
  | unlock i =>
      cases hstage : s.threads i <;> simp only [Logger.step, hstage] at hstep <;>
        try cases hstep
      · split_ifs at hstep with hfile
        cases hstep
        simp only [LogHistory.step, hstage, LogStage.entries, List.map_singleton]
        exact h.unlock (by rw [hstage]; rfl) (by rw [hstage]; rfl) (by rw [hstage]; rfl)
          (h.unbuffered (by simpa using hfile))
      · simp only [LogHistory.step, hstage, LogStage.entries, List.map_singleton]
        exact h.unlock (by rw [hstage]; rfl) (by rw [hstage]; rfl) (by rw [hstage]; rfl)
          (h.flushed i _ hstage)
  | spill n =>
      simp only [Logger.step] at hstep
      split_ifs at hstep
      cases hstep
      exact h.spill

theorem serial_of_run {toFile : Bool} {trace : List (Logger ι × LoggerLabel ι)}
    (h : (logger ι toFile old).Run trace s) : Serial (ofTrace trace) old s := by
  induction h with
  | init hinit =>
      cases hinit
      exact serial_init toFile old
  | step _ hstep ih => exact ih.step hstep

/-! ## Reading the log -/

theorem mem_of_iff {list : List (ι × Bytes)} {entry : Bytes} :
    entry ∈ of i list ↔ (i, entry) ∈ list := by
  simp [of]

/-- Every line is the entry of a call. -/
theorem Serial.line_mem_calls (h : Serial hist old s) {line : ι × Bytes}
    (hline : line ∈ hist.lines) : line ∈ hist.calls := by
  have hwritten : line.2 ∈ of line.1 hist.lines := mem_of_iff.2 hline
  rw [show line = (line.1, line.2) from rfl, ← mem_of_iff, h.calls]
  exact List.mem_append_left _ hwritten

theorem Serial.entries_mem_calls (h : Serial hist old s) {entry : Bytes}
    (hentry : (s.threads i).entries = [entry]) : (i, entry) ∈ hist.calls := by
  rw [← mem_of_iff, h.calls, hentry]
  exact List.mem_append_right _ List.mem_cons_self

/-- What of the entry underway is in the file: nothing, the line, or a part without an end. -/
theorem Serial.getLines_written (h : Serial hist old s) (hcalls : ∀ call ∈ hist.calls, LF ∉ call.2)
    {written : Bytes} (hwritten : written ++ s.buffer = underway s) :
    getLines LF written = [] ∨
      ∃ i entry part, s.mutex = some i ∧ (s.threads i).entries = [entry] ∧
        getLines LF written = [part] ∧ part <+: entry := by
  rcases List.eq_nil_or_concat written with hnil | ⟨_, _, hne⟩
  · left
    rw [hnil]
    rfl
  right
  rcases underway_cases s with hempty | ⟨i, entry, hmutex, hentry, hunderway⟩
  · rw [hempty, hne] at hwritten
    simp at hwritten
  have hentryLF : LF ∉ entry := hcalls _ (h.entries_mem_calls hentry)
  have hpart : ∀ part, part ≠ [] → part <+: entry → getLines LF part = [part] := by
    intro part hpart hbegins
    have hLF : LF ∉ part := fun hmem => hentryLF (hbegins.subset hmem)
    rw [getLines, List.splitOn_eq_singleton hLF]
    simp [hpart]
  have hwrittenne : written ≠ [] := by simp [hne]
  rcases hunderway with hunderway | hunderway
  · have hbegins : written <+: entry := ⟨s.buffer, hwritten.trans hunderway⟩
    exact ⟨i, entry, written, hmutex, hentry, hpart written hwrittenne hbegins, hbegins⟩
  · have hbegins : written <+: entry ++ [LF] := ⟨s.buffer, hwritten.trans hunderway⟩
    rcases List.prefix_concat_iff.1 hbegins with hwhole | hbegins
    · refine ⟨i, entry, entry, hmutex, hentry, ?_, List.prefix_rfl⟩
      rw [hwhole, getLines_cons hentryLF]
      rfl
    · exact ⟨i, entry, written, hmutex, hentry, hpart written hwrittenne hbegins, hbegins⟩

/--
Who reads the log at any time finds what it was opened with, then a line for each call
that has returned, and then at most a part of the entry that is being written.
-/
theorem Serial.getLines_out {lines : List Bytes} (h : Serial hist (lines.flatMap (· ++ [LF])) s)
    (hlines : ∀ line ∈ lines, LF ∉ line) (hcalls : ∀ call ∈ hist.calls, LF ∉ call.2) :
    getLines LF s.out = lines ++ hist.lines.map Prod.snd ∨
      ∃ i entry part, s.mutex = some i ∧ (s.threads i).entries = [entry] ∧ part <+: entry ∧
        getLines LF s.out = lines ++ hist.lines.map Prod.snd ++ [part] := by
  obtain ⟨written, hout, hwritten⟩ := h.out
  have htext : hist.text = (hist.lines.map Prod.snd).flatMap (· ++ [LF]) := by
    simp [text, List.flatMap_map]
  have hentries : ∀ line ∈ hist.lines.map Prod.snd, LF ∉ line := by
    intro line hline
    obtain ⟨pair, hpair, rfl⟩ := List.mem_map.1 hline
    exact hcalls _ (h.line_mem_calls hpair)
  have hread : getLines LF s.out = lines ++ hist.lines.map Prod.snd ++ getLines LF written := by
    rw [hout, htext, List.append_assoc, getLines_terminated_append hlines,
      getLines_terminated_append hentries, List.append_assoc]
  rcases h.getLines_written hcalls hwritten with hnil | hunderway
  · left
    rw [hread, hnil, List.append_nil]
  · right
    obtain ⟨i, entry, part, hmutex, hentry, hpart, hbegins⟩ := hunderway
    exact ⟨i, entry, part, hmutex, hentry, hbegins, by rw [hread, hpart]⟩

end

end LogHistory

end CppHttpd
