import CppHttpd.Foundation.Transition
import CppHttpd.Http.Handlers.CgiCourse

/-!
# The descriptors of `select`

An `fd_set` has room for 1024 descriptors, and nothing keeps those of the server
below that.  Any number of CGI programs run beside its other connections and files,
and each new descriptor is the lowest that is free.
-/

namespace CppHttpd

open CppHttpd.Foundation

/-- `FD_SETSIZE`. -/
def fdSetSize : Nat := 1024

/-- `FD_SET` and `select` stay inside the `fd_set`. -/
def CgiEvent.InRange : CgiEvent → Prop
  | .fdSet fd => fd < fdSetSize
  | .select nfds _ => nfds ≤ fdSetSize
  | _ => True

/-! ## The lowest free descriptor -/

def lowestFree (openFds : List Fd) : Fd :=
  ((List.range (openFds.length + 1)).find? fun fd => fd ∉ openFds).getD 0

theorem lowestFree_spec (openFds : List Fd) :
    lowestFree openFds ∉ openFds ∧ ∀ fd < lowestFree openFds, fd ∈ openFds := by
  unfold lowestFree
  cases hfind : (List.range (openFds.length + 1)).find? fun fd => fd ∉ openFds with
  | none =>
      rw [List.find?_eq_none] at hfind
      have hsubset : List.range (openFds.length + 1) ⊆ openFds := by
        intro fd hfd
        simpa using hfind fd hfd
      have hle := (List.nodup_range.subperm hsubset).length_le
      rw [List.length_range] at hle
      omega
  | some fd =>
      rw [List.find?_range_eq_some] at hfind
      obtain ⟨hfree, -, hlowest⟩ := hfind
      exact ⟨of_decide_eq_true hfree, fun fd' hlt => by simpa using hlowest fd' hlt⟩

theorem lowestFree_lt_iff {openFds : List Fd} {n : Nat} :
    lowestFree openFds < n ↔ ∃ fd < n, fd ∉ openFds := by
  obtain ⟨hfree, hlowest⟩ := lowestFree_spec openFds
  constructor
  · intro hlt
    exact ⟨_, hlt, hfree⟩
  · rintro ⟨fd, hlt, hfd⟩
    by_contra hle
    exact hfd (hlowest fd (hlt.trans_le (not_lt.1 hle)))

theorem lowestFree_eq {openFds : List Fd} {n : Nat} (h : ∀ fd : Nat, fd ∈ openFds ↔ fd < n) :
    lowestFree openFds = n := by
  obtain ⟨hfree, hlowest⟩ := lowestFree_spec openFds
  rw [h] at hfree
  apply le_antisymm _ (not_lt.1 hfree)
  by_contra hlt
  exact lt_irrefl n ((h n).1 (hlowest n (not_le.1 hlt)))

/-! ## Up to `read_child_output` -/

/-- The answers take what is left of the body. -/
def bodyWritten : Nat → List CgiAnswer → Bool
  | 0, _ => true
  | left + 1, .write (.ok n) :: rest => bodyWritten (left + 1 - n) rest
  | left + 1, .write .interrupted :: rest => bodyWritten (left + 1) rest
  | _, _ => false

/-- `run_cgi` has its pipes, its child and, for a `POST`, has written the body. -/
def reachesRead (cgi : CgiSetting) : List CgiAnswer → Bool
  | .pipe (some _) :: .pipe (some _) :: .fork (some _) :: rest =>
      bodyWritten (if cgi.request.methodStr = ascii "POST" then cgi.total else 0) rest
  | _ => false

theorem reachesRead_forked {cgi : CgiSetting} {answers : List CgiAnswer}
    (h : reachesRead cgi answers = true) :
    ∃ stdinPipe stdoutPipe pid rest, answers =
      .pipe (some stdinPipe) :: .pipe (some stdoutPipe) :: .fork (some pid) :: rest := by
  unfold reachesRead at h
  split at h
  · exact ⟨_, _, _, _, rfl⟩
  · cases h

namespace CgiCalls

section WriteLoop

variable {stdinFd : Fd} {body : Bytes} {pid : Pid} {bytesWritten : Nat}
  {answers rest : List CgiAnswer}

theorem writeLoop_next {bytesWritten' : Nat}
    (hturn : (writeTurn stdinFd body pid bytesWritten answers).2 =
      some (.inl bytesWritten', rest)) :
    (Asking.loop (writeTurn stdinFd body pid) bytesWritten answers).2 =
      (Asking.loop (writeTurn stdinFd body pid) bytesWritten' rest).2 := by
  rw [congrFun (loop_writeTurn stdinFd body pid bytesWritten) answers, Asking.bind_result, hturn]
  rfl

theorem writeLoop_done (hdone : body.length ≤ bytesWritten) :
    (Asking.loop (writeTurn stdinFd body pid) bytesWritten answers).2 = some (true, answers) := by
  rw [loop_writeTurn, writeTurn, if_neg hdone.not_gt]
  rfl

/-- A write that is not answered, or fails, is the last. -/
theorem writeLoop_stops (hleft : bytesWritten < body.length)
    (hok : ∀ n rest, answers ≠ .write (.ok n) :: rest)
    (hinterrupted : ∀ rest, answers ≠ .write .interrupted :: rest) :
    (Asking.loop (writeTurn stdinFd body pid) bytesWritten answers).2 ≠ some (true, rest) := by
  rw [loop_writeTurn, writeTurn, if_pos hleft]
  intro hresult
  cases answers with
  | nil => cases hresult
  | cons answer answers =>
      cases answer with
      | write written =>
          cases written with
          | ok n => exact hok n answers rfl
          | interrupted => exact hinterrupted answers rfl
          | failed =>
              cases answers with
              | nil => cases hresult
              | cons next answers => cases next <;> cases hresult
      | _ => cases hresult

end WriteLoop

theorem writeLoop_written_iff (stdinFd : Fd) (body : Bytes) (pid : Pid) (bytesWritten : Nat)
    (answers : List CgiAnswer) :
    (∃ rest, (Asking.loop (writeTurn stdinFd body pid) bytesWritten answers).2 =
      some (true, rest)) ↔ bodyWritten (body.length - bytesWritten) answers = true := by
  generalize hlength : body.length - bytesWritten = left
  fun_induction bodyWritten left answers generalizing bytesWritten with
  | case1 answers =>
      exact iff_of_true ⟨answers, writeLoop_done (by omega)⟩ rfl
  | case2 left n rest ih =>
      have hleft : bytesWritten < body.length := by omega
      rw [← ih (bytesWritten + n) (by omega), writeLoop_next]
      rw [writeTurn, if_pos hleft]
      rfl
  | case3 left rest ih =>
      have hleft : bytesWritten < body.length := by omega
      rw [← ih bytesWritten hlength, writeLoop_next]
      rw [writeTurn, if_pos hleft]
      rfl
  | case4 answers left hleft hok hinterrupted =>
      obtain ⟨left, rfl⟩ := Nat.exists_eq_succ_of_ne_zero hleft
      apply iff_of_false _ Bool.false_ne_true
      rintro ⟨rest, hresult⟩
      exact writeLoop_stops (by omega) (fun n rest heq => hok left n rest rfl heq)
        (fun rest heq => hinterrupted left rest rfl heq) hresult

theorem writeBody_written_iff (cgi : CgiSetting) (stdinFd : Fd) (pid : Pid)
    (answers : List CgiAnswer) :
    (∃ rest, (writeBody cgi stdinFd pid answers).2 = some (true, rest)) ↔
      bodyWritten (if cgi.request.methodStr = ascii "POST" then cgi.total else 0) answers =
        true := by
  unfold writeBody
  split_ifs
  · exact writeLoop_written_iff stdinFd _ pid 0 answers
  · simp [bodyWritten]

theorem not_selects_of_mem_writeBody {cgi : CgiSetting} {stdinFd : Fd} {pid : Pid}
    {answers : List CgiAnswer} {e : CgiEvent} (he : e ∈ (writeBody cgi stdinFd pid answers).1) :
    ¬ e.Selects := by
  -- The descriptor of `stdout` may be any, as far as the body is concerned.
  have h₀ := logs_writeBody cgi 0 stdinFd pid answers e he
  have h₁ := logs_writeBody cgi 1 stdinFd pid answers e he
  cases e with
  | fdSet fd => exact absurd (h₀.symm.trans h₁) (by decide)
  | select nfds timeoutSec => exact absurd (h₀.symm.trans h₁) (by decide)
  | _ => exact id

theorem fdSet_mem_readChildOutput (timeoutSec : Nat) (stdoutFd : Fd) (pid : Pid)
    (answers : List CgiAnswer) :
    .fdSet stdoutFd ∈ (readChildOutput timeoutSec stdoutFd pid answers).1 := by
  rw [readChildOutput, loop_readTurn]
  exact Asking.mem_bind_log.2 (.inl (Asking.mem_bind_log.2 (.inl (List.mem_singleton_self _))))

variable {cgi : CgiSetting} {stdinPipe stdoutPipe : PipeEnds} {pid : Pid}
  {answers : List CgiAnswer}

theorem fdSet_mem_parent {rest : List CgiAnswer}
    (hwritten : (writeBody cgi stdinPipe.writeEnd pid answers).2 = some (true, rest)) :
    .fdSet stdoutPipe.readEnd ∈ (parent cgi stdinPipe stdoutPipe pid answers).1 := by
  have hread : .fdSet stdoutPipe.readEnd ∈
      (readChildOutput cgi.timeoutSec stdoutPipe.readEnd pid rest).1 :=
    fdSet_mem_readChildOutput _ _ pid rest
  apply Asking.mem_bind_log.2 (.inr ⟨(), answers, rfl, _⟩)
  apply Asking.mem_bind_log.2 (.inr ⟨(), answers, rfl, _⟩)
  apply Asking.mem_bind_log.2 (.inr ⟨true, rest, hwritten, _⟩)
  apply Asking.mem_bind_log.2 (.inr ⟨(), rest, rfl, _⟩)
  exact Asking.mem_bind_log.2 (.inl hread)

theorem written_of_selects {e : CgiEvent}
    (he : e ∈ (parent cgi stdinPipe stdoutPipe pid answers).1) (hselects : e.Selects) :
    ∃ rest, (writeBody cgi stdinPipe.writeEnd pid answers).2 = some (true, rest) := by
  rcases Asking.mem_bind_log.1 he with he | ⟨_, _, ⟨⟩, he⟩
  · cases List.mem_singleton.1 he
    cases hselects
  rcases Asking.mem_bind_log.1 he with he | ⟨_, _, ⟨⟩, he⟩
  · cases List.mem_singleton.1 he
    cases hselects
  rcases Asking.mem_bind_log.1 he with he | ⟨written, rest, hwritten, he⟩
  · exact absurd hselects (not_selects_of_mem_writeBody he)
  cases written with
  | true => exact ⟨rest, hwritten⟩
  | false =>
      rcases Asking.mem_bind_log.1 he with he | ⟨_, _, ⟨⟩, he⟩
      · cases List.mem_singleton.1 he
        cases hselects
      · cases he

theorem reachesRead_of_selects {e : CgiEvent} (he : e ∈ (runCgi cgi answers).1)
    (hselects : e.Selects) : reachesRead cgi answers = true := by
  rcases runCgi_cases cgi answers with ⟨hlog, -⟩ |
    ⟨stdinPipe, stdoutPipe, pid, rest, rfl, -, hrun⟩
  · exact absurd hselects (hlog.unselected e he)
  · rw [hrun] at he
    rcases he with _ | ⟨_, _ | ⟨_, _ | ⟨_, he⟩⟩⟩
    · cases hselects
    · cases hselects
    · cases hselects
    · exact (writeBody_written_iff cgi _ pid rest).1 (written_of_selects he hselects)

/-- `select` is called for the descriptor of `stdout`, once its turn has come. -/
theorem runCgi_inRange_iff (hdistinct : [stdinPipe.readEnd, stdinPipe.writeEnd,
      stdoutPipe.readEnd, stdoutPipe.writeEnd].Nodup)
    (hreaches : reachesRead cgi (.pipe (some stdinPipe) :: .pipe (some stdoutPipe) ::
      .fork (some pid) :: answers) = true) :
    (∀ e ∈ (runCgi cgi (.pipe (some stdinPipe) :: .pipe (some stdoutPipe) ::
      .fork (some pid) :: answers)).1, e.InRange) ↔ stdoutPipe.readEnd < fdSetSize := by
  rw [runCgi_forked cgi hdistinct, List.forall_mem_cons, List.forall_mem_cons,
    List.forall_mem_cons]
  obtain ⟨rest, hwritten⟩ := (writeBody_written_iff cgi stdinPipe.writeEnd pid answers).2 hreaches
  constructor
  · rintro ⟨-, -, -, hparent⟩
    exact hparent _ (fdSet_mem_parent hwritten)
  · intro hlt
    refine ⟨trivial, trivial, trivial, ?_⟩
    intro e he
    have hafter := logs_parent cgi stdinPipe stdoutPipe pid answers e he
    cases e with
    | fdSet fd => exact hafter ▸ hlt
    | select nfds timeoutSec => exact hafter ▸ Nat.succ_le_of_lt hlt
    | _ => trivial

end CgiCalls

/-! ## The descriptors of the server -/

/-- A run of `run_cgi`: the answers so far, each with what was open when it was given. -/
structure CgiThread where
  cgi : CgiSetting
  history : List (CgiAnswer × List Fd) := []

namespace CgiThread

def answers (t : CgiThread) : List CgiAnswer := t.history.map Prod.fst

def log (t : CgiThread) : List CgiEvent := (CgiCalls.runCgi t.cgi t.answers).1

def openFds (t : CgiThread) : List Fd :=
  t.log.foldl (fun fds e =>
    match e with
    | .pipe (some ends) => fds ++ [ends.readEnd, ends.writeEnd]
    | .close fd => fds.erase fd
    | _ => fds) []

end CgiThread

/-- `others` are those of connections, served files and whatever else is open. -/
structure ServerFds where
  others : List Fd := []
  threads : List CgiThread := []

inductive FdLabel where
  | opens
  | closes (fd : Fd)
  | runsCgi (cgi : CgiSetting)
  | answers (i : Nat) (answer : CgiAnswer)

/-- `pipe` hands out the two lowest descriptors that are free, if the limit has room for them. -/
structure HandsOut (limit : Nat) (openFds : List Fd) (ends : PipeEnds) : Prop where
  readEnd : ends.readEnd = lowestFree openFds
  writeEnd : ends.writeEnd = lowestFree (ends.readEnd :: openFds)
  readEnd_lt : ends.readEnd < limit
  writeEnd_lt : ends.writeEnd < limit

instance (limit : Nat) (openFds : List Fd) (ends : PipeEnds) :
    Decidable (HandsOut limit openFds ends) :=
  decidable_of_iff (ends.readEnd = lowestFree openFds ∧
      ends.writeEnd = lowestFree (ends.readEnd :: openFds) ∧
      ends.readEnd < limit ∧ ends.writeEnd < limit)
    ⟨fun ⟨h₁, h₂, h₃, h₄⟩ => ⟨h₁, h₂, h₃, h₄⟩, fun ⟨h₁, h₂, h₃, h₄⟩ => ⟨h₁, h₂, h₃, h₄⟩⟩

def Answers (limit : Nat) (openFds : List Fd) : CgiAnswer → Prop
  | .pipe (some ends) => HandsOut limit openFds ends
  | _ => True

instance (limit : Nat) (openFds : List Fd) (answer : CgiAnswer) :
    Decidable (Answers limit openFds answer) := by
  unfold Answers
  split <;> infer_instance

namespace ServerFds

def openFds (s : ServerFds) : List Fd := s.others ++ s.threads.flatMap CgiThread.openFds

def step (limit : Nat) (s : ServerFds) : FdLabel → Option ServerFds
  | .opens =>
      if lowestFree s.openFds < limit then
        some { s with others := lowestFree s.openFds :: s.others }
      else none
  | .closes fd => if fd ∈ s.others then some { s with others := s.others.erase fd } else none
  | .runsCgi cgi => some { s with threads := s.threads ++ [{ cgi := cgi }] }
  | .answers i answer =>
      match s.threads[i]? with
      | none => none
      | some t =>
          if Answers limit s.openFds answer then
            let t := { t with history := t.history ++ [(answer, s.openFds)] }
            some { s with threads := s.threads.set i t }
          else none

end ServerFds

/-- A server whose descriptors are below `limit`. -/
def serverFds (limit : Nat) : Machine ServerFds FdLabel where
  init s := s = {}
  step s label := s.step limit label

/-! ## What was handed out -/

theorem HandsOut.readEnd_lt_writeEnd {limit : Nat} {ends : PipeEnds} {openFds : List Fd}
    (h : HandsOut limit openFds ends) : ends.readEnd < ends.writeEnd := by
  by_contra hle
  have hfree := (lowestFree_spec (ends.readEnd :: openFds)).1
  rw [← h.writeEnd, List.mem_cons, not_or] at hfree
  have hlt := lt_of_le_of_ne (not_lt.1 hle) hfree.1
  exact hfree.2 ((lowestFree_spec openFds).2 _ (h.readEnd ▸ hlt))

namespace CgiThread

/-- What the operating system has answered, and what was open then. -/
structure Served (limit : Nat) (t : CgiThread) : Prop where
  handed : ∀ ends openFds, (.pipe (some ends), openFds) ∈ t.history → HandsOut limit openFds ends
  stdinOpen : ∀ ends beforeFds answer openFds rest,
    t.history = (.pipe (some ends), beforeFds) :: (answer, openFds) :: rest →
      ends.readEnd ∈ openFds ∧ ends.writeEnd ∈ openFds

variable {limit : Nat} {t : CgiThread}

theorem Served.start (cgi : CgiSetting) : Served limit { cgi := cgi } where
  handed := by rintro ends openFds ⟨⟩
  stdinOpen := by rintro ends beforeFds answer openFds rest ⟨⟩

theorem openFds_start (cgi : CgiSetting) : CgiThread.openFds { cgi := cgi } = [] := rfl

theorem openFds_of_first {ends : PipeEnds} {beforeFds : List Fd}
    (hhistory : t.history = [(.pipe (some ends), beforeFds)])
    (hne : ends.readEnd ≠ ends.writeEnd) : t.openFds = [ends.readEnd, ends.writeEnd] := by
  have hfresh : ([] ++ [ends.readEnd, ends.writeEnd]).Nodup := by
    simpa using hne
  have hsetup : CgiCalls.setupCgiPipes [.pipe (some ends)] = ([.pipe (some ends)], none) := by
    rw [CgiCalls.setupCgiPipes, Asking.bind_of_eq (CgiCalls.pipe_fresh hfresh)]
    rfl
  rw [openFds, log, answers, hhistory, List.map_cons, List.map_nil, CgiCalls.runCgi,
    Asking.bind_of_waiting hsetup]
  rfl

theorem Served.answer (h : Served limit t) {answer : CgiAnswer} {openFds : List Fd}
    (hanswer : Answers limit openFds answer) (hopen : t.openFds ⊆ openFds) :
    Served limit { t with history := t.history ++ [(answer, openFds)] } where
  handed := by
    intro ends openFds' hmem
    rcases List.mem_append.1 hmem with hmem | hmem
    · exact h.handed ends openFds' hmem
    · cases List.mem_singleton.1 hmem
      exact hanswer
  stdinOpen := by
    intro ends beforeFds answer' openFds' rest hhistory
    match hbefore : t.history with
    | [] =>
        rw [hbefore] at hhistory
        cases hhistory
    | [first] =>
        rw [hbefore] at hhistory
        cases hhistory
        have hlt := (h.handed ends beforeFds (by rw [hbefore]; exact List.mem_cons_self)).readEnd_lt_writeEnd
        rw [openFds_of_first hbefore hlt.ne] at hopen
        exact ⟨hopen List.mem_cons_self, hopen (by simp)⟩
    | first :: second :: rest' =>
        rw [hbefore] at hhistory
        cases hhistory
        exact h.stdinOpen ends beforeFds answer' openFds' rest' hbefore

theorem Served.distinct (h : Served limit t) {stdinPipe stdoutPipe : PipeEnds}
    {beforeFds openFds : List Fd} {rest : List (CgiAnswer × List Fd)}
    (hhistory : t.history = (.pipe (some stdinPipe), beforeFds) ::
      (.pipe (some stdoutPipe), openFds) :: rest) :
    [stdinPipe.readEnd, stdinPipe.writeEnd, stdoutPipe.readEnd, stdoutPipe.writeEnd].Nodup := by
  have hstdin := h.handed stdinPipe beforeFds (by rw [hhistory]; exact List.mem_cons_self)
  have hstdout := h.handed stdoutPipe openFds (by rw [hhistory]; simp)
  obtain ⟨hread, hwrite⟩ := h.stdinOpen _ _ _ _ _ hhistory
  have hreadFree := (lowestFree_spec openFds).1
  have hwriteFree := (lowestFree_spec (stdoutPipe.readEnd :: openFds)).1
  rw [← hstdout.readEnd] at hreadFree
  rw [← hstdout.writeEnd, List.mem_cons, not_or] at hwriteFree
  have hne {fd fd' : Fd} (hfd : fd ∈ openFds) (hfd' : fd' ∉ openFds) : fd ≠ fd' :=
    fun heq => hfd' (heq ▸ hfd)
  simp [hstdin.readEnd_lt_writeEnd.ne, hstdout.readEnd_lt_writeEnd.ne, hne hread hreadFree, hne hwrite hreadFree,
    hne hread hwriteFree.2, hne hwrite hwriteFree.2]

/-- What was open when the pipe for `stdout` was made. -/
def openAtStdout (t : CgiThread) : List Fd :=
  match t.history with
  | _ :: (_, openFds) :: _ => openFds
  | _ => []

/-- If `read_child_output` is reached, a descriptor that fits was free for it. -/
def Room (t : CgiThread) : Prop :=
  reachesRead t.cgi t.answers = true → ∃ fd < fdSetSize, fd ∉ t.openAtStdout

/-- Where `read_child_output` is reached, it has the descriptor that was handed out for it. -/
theorem Served.stdout (h : Served limit t) (hreaches : reachesRead t.cgi t.answers = true) :
    ∃ stdoutPipe, HandsOut limit t.openAtStdout stdoutPipe ∧
      ((∀ e ∈ t.log, e.InRange) ↔ stdoutPipe.readEnd < fdSetSize) := by
  obtain ⟨stdinPipe, stdoutPipe, pid, rest, hanswers⟩ := reachesRead_forked hreaches
  obtain ⟨⟨_, beforeFds⟩, _, hhistory, rfl, hmap⟩ := List.map_eq_cons_iff.1 hanswers
  obtain ⟨⟨_, openFds⟩, _, rfl, rfl, -⟩ := List.map_eq_cons_iff.1 hmap
  refine ⟨stdoutPipe, ?_, ?_⟩
  · rw [openAtStdout, hhistory]
    exact h.handed stdoutPipe openFds (by rw [hhistory]; simp)
  · rw [log, hanswers]
    exact CgiCalls.runCgi_inRange_iff (h.distinct hhistory) (hanswers ▸ hreaches)

theorem Served.inRange_iff (h : Served limit t) : (∀ e ∈ t.log, e.InRange) ↔ t.Room := by
  by_cases hreaches : reachesRead t.cgi t.answers = true
  · obtain ⟨stdoutPipe, hstdout, hlog⟩ := h.stdout hreaches
    rw [hstdout.readEnd, lowestFree_lt_iff] at hlog
    rw [hlog]
    exact ⟨fun hroom _ => hroom, fun hroom => hroom hreaches⟩
  · apply iff_of_true
    · intro e he
      have hunselected : ¬ e.Selects :=
        fun hselects => hreaches (CgiCalls.reachesRead_of_selects he hselects)
      cases e with
      | fdSet fd => exact absurd trivial hunselected
      | select nfds timeoutSec => exact absurd trivial hunselected
      | _ => trivial
    · exact fun h => absurd h hreaches

end CgiThread

namespace ServerFds

variable {limit : Nat} {s s' : ServerFds}

theorem openFds_subset {t : CgiThread} (ht : t ∈ s.threads) : t.openFds ⊆ s.openFds := by
  intro fd hfd
  exact List.mem_append_right _ (List.mem_flatMap.2 ⟨t, ht, hfd⟩)

theorem served_step (h : ∀ t ∈ s.threads, t.Served limit) {label : FdLabel}
    (hstep : s.step limit label = some s') : ∀ t ∈ s'.threads, t.Served limit := by
  cases label with
  | opens =>
      rw [step] at hstep
      split_ifs at hstep
      cases hstep
      exact h
  | closes fd =>
      rw [step] at hstep
      split_ifs at hstep
      cases hstep
      exact h
  | runsCgi cgi =>
      cases hstep
      intro t ht
      rcases List.mem_append.1 ht with ht | ht
      · exact h t ht
      · cases List.mem_singleton.1 ht
        exact .start cgi
  | answers i answer =>
      rw [step] at hstep
      split at hstep
      · cases hstep
      · next t hthread =>
          have ht := List.mem_of_getElem? hthread
          split_ifs at hstep with hanswer
          cases hstep
          intro t' ht'
          rcases List.mem_or_eq_of_mem_set ht' with ht' | rfl
          · exact h t' ht'
          · exact (h t ht).answer hanswer (openFds_subset ht)

theorem served_of_reached (hs : (serverFds limit).Reached s) :
    ∀ t ∈ s.threads, t.Served limit := by
  apply hs.invariant
  · rintro s rfl t ht
    cases ht
  · intro s label s' h _ hstep
    exact served_step h hstep

/-- No call of any `read_child_output` leaves its `fd_set`. -/
def SelectsInRange (s : ServerFds) : Prop := ∀ t ∈ s.threads, ∀ e ∈ t.log, e.InRange

/-- `n` descriptors are open, and no program runs. -/
theorem reached_opens {n : Nat} (hn : n ≤ limit) :
    (serverFds limit).Reached { others := (List.range n).reverse } := by
  induction n with
  | zero => exact .init rfl
  | succ n ih =>
      have hlowest : lowestFree (openFds { others := (List.range n).reverse }) = n := by
        apply lowestFree_eq
        simp [openFds]
      apply (ih (by omega)).step (l := .opens) trivial
      change step limit _ .opens = _
      rw [step, hlowest, if_pos (Nat.lt_of_succ_le hn), List.range_succ, List.reverse_append]
      rfl

theorem reached_answer {others : List Fd} {t : CgiThread} (answer : CgiAnswer)
    (hs : (serverFds limit).Reached { others := others, threads := [t] })
    (hanswer : Answers limit (openFds { others := others, threads := [t] }) answer) :
    (serverFds limit).Reached
      { others := others
        threads := [{ t with
          history := t.history ++ [(answer, openFds { others := others, threads := [t] })] }] } := by
  apply hs.step (l := .answers 0 answer) trivial
  change (if Answers limit _ answer then _ else _) = _
  rw [if_pos hanswer]
  rfl

theorem handsOut_lowest {openFds : List Fd} {n : Nat} (h : ∀ fd : Nat, fd ∈ openFds ↔ fd < n)
    (hn : n + 2 ≤ limit) : HandsOut limit openFds ⟨n, n + 1⟩ where
  readEnd := (lowestFree_eq h).symm
  writeEnd := by
    refine (lowestFree_eq ?_).symm
    intro fd
    rw [List.mem_cons, h]
    dsimp only
    omega
  readEnd_lt := Nat.lt_of_succ_le (Nat.le_of_succ_le hn)
  writeEnd_lt := Nat.lt_of_succ_le hn

/-- A program that is run while the first `n` descriptors are open reads from the third after
them. -/
theorem reached_read {n : Nat} (hn : n + 4 ≤ limit) :
    ∃ s, (serverFds limit).Reached s ∧ s.others.length = n ∧
      (s.SelectsInRange ↔ n + 2 < fdSetSize) := by
  have hopened : (serverFds limit).Reached { others := (List.range n).reverse } :=
    reached_opens (by omega)
  have hstarted := hopened.step (l := .runsCgi {}) trivial rfl
  have hfirst := reached_answer (.pipe (some ⟨n, n + 1⟩)) hstarted
    (handsOut_lowest (by simp [openFds, CgiThread.openFds_start]) (by omega))
  have hsecond := reached_answer (.pipe (some ⟨n + 2, n + 3⟩)) hfirst <| by
    apply handsOut_lowest _ (by omega)
    intro fd
    rw [openFds, List.flatMap_singleton, CgiThread.openFds_of_first rfl (by simp), List.mem_append,
      List.mem_reverse, List.mem_range, List.mem_pair]
    dsimp only
    omega
  have hforked := reached_answer (.fork (some 1)) hsecond trivial
  refine ⟨_, hforked, by rw [List.length_reverse, List.length_range], ?_⟩
  rw [SelectsInRange, List.forall_mem_singleton]
  apply CgiCalls.runCgi_inRange_iff (by simp)
  rfl

/-- `select` stays inside its `fd_set` exactly while every program of which the output is read
had a descriptor below `FD_SETSIZE` free when the pipe for it was made. -/
theorem selectsInRange_iff (hs : (serverFds limit).Reached s) :
    s.SelectsInRange ↔ ∀ t ∈ s.threads, t.Room :=
  forall₂_congr fun t ht => (served_of_reached hs t ht).inRange_iff

/-- A program whose output is read while the descriptors 0, 1 and 2 are open. -/
theorem selectsInRange_iff_unloaded :
    ∃ s : ServerFds, s.others.length = 3 ∧ (s.SelectsInRange ↔ ∀ t ∈ s.threads, t.Room) := by
  obtain ⟨s, hs, hlength, -⟩ := reached_read (show 3 + 4 ≤ 64 by decide)
  exact ⟨s, hlength, selectsInRange_iff hs⟩

/-- With 1024 descriptors open, `select` is called for the descriptor 1026. -/
theorem not_selectsInRange :
    ∃ s, (serverFds 4096).Reached s ∧ s.others.length = 1024 ∧ ¬ s.SelectsInRange := by
  obtain ⟨s, hs, hlength, hrange⟩ := reached_read (show 1024 + 4 ≤ 4096 by decide)
  exact ⟨s, hs, hlength, fun h => absurd (hrange.1 h) (by decide)⟩

/-- The limits of a process with which no call leaves its `fd_set`. -/
theorem selectsInRange_always_iff :
    (∀ s, (serverFds limit).Reached s → s.SelectsInRange) ↔ limit ≤ fdSetSize + 1 := by
  constructor
  · intro hall
    by_contra hlimit
    have hroom : 1022 + 4 ≤ limit := by
      rw [fdSetSize] at hlimit
      omega
    obtain ⟨s, hs, -, hrange⟩ := reached_read hroom
    have hlt := hrange.1 (hall s hs)
    rw [fdSetSize] at hlt
    omega
  · intro hlimit s hs t ht
    have hserved := served_of_reached hs t ht
    rw [hserved.inRange_iff]
    intro hreaches
    obtain ⟨stdoutPipe, hstdout, -⟩ := hserved.stdout hreaches
    rw [← lowestFree_lt_iff, ← hstdout.readEnd]
    have hlt := hstdout.writeEnd_lt.trans_le hlimit
    exact hstdout.readEnd_lt_writeEnd.trans_le (Nat.lt_succ_iff.1 hlt)

end ServerFds

end CppHttpd
