import CppHttpd.Http.Connection.Transfer

/-!
# Responses that break off

A response of which a part could not be sent should be the last that the client
sees anything of.  But `write_all` and `write_response` do not tell their caller
that they gave up, so whether something follows is left to the kernel.
-/

namespace CppHttpd

open CppHttpd.Foundation

namespace Answer

/-- The loop that made the call gives up. -/
def fails : Answer → Bool
  | .write (.ok n) => n = 0
  | .write (.error _) => true
  | .sendfile (.ok _) => false
  | .sendfile (.error errno) => errno ≠ .again ∧ errno ≠ .interrupted

def moves : Answer → Bool
  | .write (.ok n) => n > 0
  | .sendfile (.ok n) => n > 0
  | _ => false

end Answer

/-- After a call that fails no call puts anything on the socket any more. -/
def SilentAfterFailure (answers : List Answer) : Prop :=
  answers.Pairwise fun a b => a.fails = true → b.moves = false

namespace Written

variable {A : Type*}

def bodySize (package : ResponsePackage) : Nat :=
  package.bodyFd.elim 0 fun _ => package.bodyFdSize.toNat

structure Complete (written : Written A) : Prop where
  head : written.head.bytes = written.package.bytes
  body : written.body.bytes.length = bodySize written.package

def Incomplete (written : Written A) : Prop :=
  (∃ missing, missing ≠ [] ∧ written.head.bytes ++ missing = written.package.bytes) ∧
      written.body.bytes = [] ∨
    written.head.bytes = written.package.bytes ∧
      written.body.bytes.length < bodySize written.package

end Written

/-- Complete responses, then at most one that is not, and nothing behind it. -/
def Unbroken {A : Type*} : List (Written A) → Prop
  | [] => True
  | written :: later =>
      written.Complete ∧ Unbroken later ∨
        written.Incomplete ∧ ∀ other ∈ later, other.bytes = []

/-! ## What a loop uses up -/

/-- A loop that has `size` bytes to send uses answers until it is done, or is in a call
that is not answered, or gives up on the last of them. -/
inductive Course (size : Nat) (answers : List Answer) (t : Transfer Answer) : Prop
  | all (used : List Answer) (hused : answers = used ++ t.rest)
      (hok : ∀ a ∈ used, a.fails = false)
      (hsilent : t.bytes = [] ↔ ∀ a ∈ used, a.moves = false)
      (hlength : t.bytes.length = size) (hwaits : t.waits = false)
  | waits (used : List Answer) (hused : answers = used ++ t.rest)
      (hok : ∀ a ∈ used, a.fails = false)
      (hsilent : t.bytes = [] ↔ ∀ a ∈ used, a.moves = false)
      (hlength : t.bytes.length < size) (hwaits : t.waits = true)
  | breaks (used : List Answer) (a : Answer) (hused : answers = used ++ a :: t.rest)
      (hok : ∀ a ∈ used, a.fails = false)
      (hsilent : t.bytes = [] ↔ ∀ a ∈ used, a.moves = false)
      (hlength : t.bytes.length < size) (hwaits : t.waits = false) (hfails : a.fails = true)

/-- One more answer in front, and what it moved. -/
theorem Course.cons {size : Nat} {answers : List Answer} {t : Transfer Answer} {a : Answer}
    (data : Bytes) (hok : a.fails = false) (hmoves : data = [] ↔ a.moves = false)
    (h : Course size answers t) :
    Course (data.length + size) (a :: answers) { t with bytes := data ++ t.bytes } := by
  have hsilent {used : List Answer} (hused : t.bytes = [] ↔ ∀ b ∈ used, b.moves = false) :
      data ++ t.bytes = [] ↔ ∀ b ∈ a :: used, b.moves = false := by
    rw [List.append_eq_nil_iff, hmoves, hused, List.forall_mem_cons]
  cases h with
  | all used hused hused_ok hsil hlength hwaits =>
      exact .all (a :: used) (congrArg _ hused) (List.forall_mem_cons.2 ⟨hok, hused_ok⟩)
        (hsilent hsil) (by simp [hlength]) hwaits
  | waits used hused hused_ok hsil hlength hwaits =>
      exact .waits (a :: used) (congrArg _ hused) (List.forall_mem_cons.2 ⟨hok, hused_ok⟩)
        (hsilent hsil) (by simpa using hlength) hwaits
  | breaks used b hused hused_ok hsil hlength hwaits hfails =>
      exact .breaks (a :: used) b (congrArg _ hused) (List.forall_mem_cons.2 ⟨hok, hused_ok⟩)
        (hsilent hsil) (by simpa using hlength) hwaits hfails

theorem course_done (answers : List Answer) : Course 0 answers ⟨[], answers, false⟩ :=
  .all [] rfl nofun (by simp) rfl rfl

theorem course_waits {size : Nat} (hsize : 0 < size) (answers : List Answer) :
    Course size answers ⟨[], answers, true⟩ :=
  .waits [] rfl nofun (by simp) hsize rfl

theorem course_breaks {size : Nat} (hsize : 0 < size) {a : Answer} (hfails : a.fails = true)
    (rest : List Answer) : Course size (a :: rest) ⟨[], rest, false⟩ :=
  .breaks [] a rfl nofun (by simp) hsize rfl hfails

theorem writeAll_course (data : Bytes) (answers : List Answer) :
    Course data.length answers (writeAll data answers) := by
  induction answers generalizing data with
  | nil =>
      by_cases hdata : data = []
      · subst hdata
        exact course_done []
      · simpa [writeAll, hdata] using course_waits (List.length_pos_of_ne_nil hdata) []
  | cons answer rest ih =>
      unfold writeAll
      split_ifs with hdata
      · subst hdata
        exact course_done _
      · have hpos := List.length_pos_of_ne_nil hdata
        split
        · split_ifs with hmany hzero
          · exact course_waits hpos _
          · exact course_breaks hpos (by simpa [Answer.fails] using hzero) rest
          · rename_i n
            have hn : (data.take n).length = n := by simp; omega
            have hsize : data.length = (data.take n).length + (data.drop n).length := by
              rw [← List.length_append, List.take_append_drop]
            rw [hsize]
            apply (ih (data.drop n)).cons _ (by simpa [Answer.fails] using hzero)
            simp [Answer.moves, hzero, hdata]
        · exact course_breaks hpos rfl rest
        · exact course_waits hpos _

theorem sendfileLoop_course (files : OpenFiles) (fd : Fd) (answers : List Answer)
    (offset remaining : Int) :
    Course remaining.toNat answers (sendfileLoop files fd offset remaining answers) := by
  induction answers generalizing offset remaining with
  | nil =>
      by_cases hpos : remaining > 0
      · simpa [sendfileLoop, hpos] using course_waits (by omega : 0 < remaining.toNat) []
      · have hzero : remaining.toNat = 0 := by omega
        simpa [sendfileLoop, hpos, hzero] using course_done []
  | cons answer rest ih =>
      unfold sendfileLoop
      split_ifs with hpos
      · have hsize : 0 < remaining.toNat := by omega
        split
        · rename_i n
          dsimp only
          split_ifs with hsend
          · obtain ⟨-, hle, hlength⟩ := hsend
            have hsum : remaining.toNat = ((files rest.length fd).slice offset n).length +
                (remaining - n).toNat := by omega
            rw [hsum]
            apply (ih _ _).cons _ rfl
            rw [← List.length_eq_zero_iff, hlength]
            simp [Answer.moves]
          · exact course_waits hsize _
        · split_ifs with herrno
          · exact course_breaks hsize (by simpa [Answer.fails] using herrno) rest
          · have hretry := (ih offset remaining).cons
              (a := .sendfile (.error _)) [] (by simpa [Answer.fails] using herrno)
              (by simp [Answer.moves])
            simpa using hretry
        · exact course_waits hsize _
      · have hzero : remaining.toNat = 0 := by omega
        rw [hzero]
        exact course_done _

theorem isPrefix_writeAll (data : Bytes) (answers : List Answer) :
    (writeAll data answers).bytes <+: data := by
  induction answers generalizing data with
  | nil => exact List.nil_prefix
  | cons answer rest ih =>
      unfold writeAll
      split_ifs
      · exact List.nil_prefix
      · split
        · split_ifs
          · exact List.nil_prefix
          · exact List.nil_prefix
          · rename_i n _ _
            obtain ⟨missing, hmissing⟩ := ih (data.drop n)
            refine ⟨missing, ?_⟩
            rw [List.append_assoc, hmissing, List.take_append_drop]
        · exact List.nil_prefix
        · exact List.nil_prefix

theorem writeAll_eq {data : Bytes} {answers : List Answer}
    (h : (writeAll data answers).bytes.length = data.length) :
    (writeAll data answers).bytes = data :=
  (isPrefix_writeAll data answers).eq_of_length h

theorem writeAll_missing {data : Bytes} {answers : List Answer}
    (h : (writeAll data answers).bytes.length < data.length) :
    ∃ missing, missing ≠ [] ∧ (writeAll data answers).bytes ++ missing = data := by
  obtain ⟨missing, hmissing⟩ := isPrefix_writeAll data answers
  refine ⟨missing, ?_, hmissing⟩
  rintro rfl
  rw [List.append_nil] at hmissing
  rw [hmissing] at h
  exact lt_irrefl _ h

/-! ## One response -/

/-- What became of a response, and of the answers it used. -/
inductive ResponseCourse (answers : List Answer) (written : Written Answer) : Prop
  | complete (used : List Answer) (hused : answers = used ++ written.rest)
      (hok : ∀ a ∈ used, a.fails = false)
      (hsilent : written.bytes = [] ↔ ∀ a ∈ used, a.moves = false)
      (hcomplete : written.Complete) (hwaits : written.waits = false)
  | waits (used : List Answer) (hused : answers = used ++ written.rest)
      (hok : ∀ a ∈ used, a.fails = false)
      (hsilent : written.bytes = [] ↔ ∀ a ∈ used, a.moves = false)
      (hincomplete : written.Incomplete) (hwaits : written.waits = true)
  | breaks (before after : List Answer) (a : Answer)
      (hused : answers = before ++ a :: (after ++ written.rest))
      (hok : ∀ a ∈ before, a.fails = false) (hfails : a.fails = true)
      (hsilent : written.bytes = [] ↔ ∀ a ∈ before ++ after, a.moves = false)
      (hincomplete : written.Incomplete ↔ ∀ b ∈ after, b.moves = false)
      (hbroken : ¬ written.Complete)

theorem Answer.not_moves {a : Answer} (h : a.fails = true) : a.moves = false := by
  rcases a with (_ | n) | (_ | n) <;> simp_all [Answer.fails, Answer.moves]

/-- The answers that a loop used, with the one it gave up on. -/
theorem Course.used {size : Nat} {answers : List Answer} {t : Transfer Answer}
    (h : Course size answers t) :
    ∃ used, answers = used ++ t.rest ∧ (t.bytes = [] ↔ ∀ a ∈ used, a.moves = false) := by
  cases h with
  | all used hused _ hsilent => exact ⟨used, hused, hsilent⟩
  | waits used hused _ hsilent => exact ⟨used, hused, hsilent⟩
  | breaks used a hused _ hsilent _ _ hfails =>
      refine ⟨used ++ [a], by simpa using hused, ?_⟩
      rw [hsilent, List.forall_mem_append]
      simp [Answer.not_moves hfails]

variable {files : OpenFiles} {package : ResponsePackage} {answers : List Answer}

theorem writeResponse_body (files : OpenFiles)
    (hwaits : (writeAll package.bytes answers).waits = false) :
    Course (Written.bodySize package) (writeAll package.bytes answers).rest
      (writeResponse files package answers).body := by
  unfold writeResponse Written.bodySize
  simp only [hwaits, Bool.false_eq_true, if_false]
  cases package.bodyFd with
  | none => exact course_done _
  | some fd => exact sendfileLoop_course files fd _ _ _

theorem writeResponse_course (files : OpenFiles) (package : ResponsePackage)
    (answers : List Answer) :
    ResponseCourse answers (writeResponse files package answers) := by
  have hhead : (writeResponse files package answers).head = writeAll package.bytes answers := rfl
  have hcourse := writeAll_course package.bytes answers
  cases hcourse with
  | waits used hused hok hsilent hlength hwaits =>
      have hbody : (writeResponse files package answers).body =
          ⟨[], (writeAll package.bytes answers).rest, false⟩ := by
        simp [writeResponse, hwaits]
      refine .waits used (by rw [Written.rest, hbody, ← hused]) hok ?_
        (.inl ⟨writeAll_missing hlength, by rw [hbody]⟩) (by simp [Written.waits, hhead, hwaits])
      rw [Written.bytes, hhead, hbody, List.append_nil, hsilent]
  | all used hused hok hsilent hlength hwaits =>
      have hfull := writeAll_eq hlength
      have hbody := writeResponse_body files hwaits
      have hbytes : (writeResponse files package answers).bytes = [] ↔
          (writeAll package.bytes answers).bytes = [] ∧
            (writeResponse files package answers).body.bytes = [] := List.append_eq_nil_iff
      cases hbody with
      | all used' hused' hok' hsilent' hlength' hwaits' =>
          refine .complete (used ++ used') (by
            rw [List.append_assoc, Written.rest, ← hused', ← hused])
            (List.forall_mem_append.2 ⟨hok, hok'⟩) ?_ ⟨hfull, hlength'⟩
            (by simp [Written.waits, hhead, hwaits, hwaits'])
          rw [hbytes, hsilent, hsilent', List.forall_mem_append]
      | waits used' hused' hok' hsilent' hlength' hwaits' =>
          refine .waits (used ++ used') (by
            rw [List.append_assoc, Written.rest, ← hused', ← hused])
            (List.forall_mem_append.2 ⟨hok, hok'⟩) ?_ (.inr ⟨hfull, hlength'⟩)
            (by simp [Written.waits, hwaits'])
          rw [hbytes, hsilent, hsilent', List.forall_mem_append]
      | breaks used' a hused' hok' hsilent' hlength' hwaits' hfails' =>
          refine .breaks (used ++ used') [] a (by
            rw [List.append_assoc, List.nil_append, Written.rest, ← hused', ← hused])
            (List.forall_mem_append.2 ⟨hok, hok'⟩) hfails' ?_
            (iff_of_true (.inr ⟨hfull, hlength'⟩) nofun) fun hcomplete => ?_
          · rw [hbytes, hsilent, hsilent', List.append_nil, List.forall_mem_append]
          · exact hlength'.ne hcomplete.body
  | breaks used a hused hok hsilent hlength hwaits hfails =>
      have hbody := writeResponse_body files hwaits
      obtain ⟨after, hafter, hquiet⟩ := hbody.used
      have hmissing := writeAll_missing hlength
      refine .breaks used after a (by
        rw [Written.rest, ← hafter, ← hused]) hok hfails ?_ ?_ fun hcomplete => ?_
      · rw [Written.bytes, List.append_eq_nil_iff, hhead, hsilent, hquiet,
          List.forall_mem_append]
      · rw [← hquiet]
        constructor
        · rintro (⟨-, hnone⟩ | ⟨hfull, -⟩)
          · exact hnone
          · rw [hhead] at hfull
            exact absurd (congrArg List.length hfull) hlength.ne
        · exact fun hnone => .inl ⟨hmissing, hnone⟩
      · exact hlength.ne (congrArg List.length hcomplete.head)

/-! ## All responses -/

theorem silentAfterFailure_append {used : List Answer} (later : List Answer)
    (hok : ∀ a ∈ used, a.fails = false) :
    SilentAfterFailure (used ++ later) ↔ SilentAfterFailure later := by
  have hnever {a b : Answer} (ha : a ∈ used) : a.fails = true → b.moves = false := fun hfails => by
    rw [hok a ha] at hfails
    cases hfails
  unfold SilentAfterFailure
  rw [List.pairwise_append]
  constructor
  · exact fun h => h.2.1
  · refine fun h => ⟨?_, h, fun a ha b _ => hnever ha⟩
    exact List.Pairwise.imp_of_mem (fun ha _ _ => hnever ha)
      (List.pairwise_of_forall fun _ _ => trivial)

theorem silentAfterFailure_cons {a : Answer} {later : List Answer} (hfails : a.fails = true) :
    SilentAfterFailure (a :: later) ↔ ∀ b ∈ later, b.moves = false := by
  unfold SilentAfterFailure
  rw [List.pairwise_cons]
  constructor
  · exact fun h b hb => h.1 b hb hfails
  · refine fun h => ⟨fun b hb _ => h b hb, ?_⟩
    exact List.Pairwise.imp_of_mem (fun _ hb _ _ => h _ hb)
      (List.pairwise_of_forall fun _ _ => trivial)

theorem Written.Incomplete.not_complete {A : Type*} {written : Written A}
    (h : written.Incomplete) : ¬ written.Complete := by
  intro hcomplete
  rcases h with ⟨⟨missing, hne, hmissing⟩, -⟩ | ⟨-, hlt⟩
  · rw [hcomplete.head, List.append_right_eq_self] at hmissing
    exact hne hmissing
  · exact hlt.ne hcomplete.body

structure UsedFor (written : List (Written Answer)) (used : List Answer) : Prop where
  silent : (∀ other ∈ written, other.bytes = []) ↔ ∀ a ∈ used, a.moves = false
  unbroken : Unbroken written ↔ SilentAfterFailure used

theorem usedFor_nil : UsedFor [] [] where
  silent := by simp
  unbroken := iff_of_true trivial .nil

theorem UsedFor.complete {written : Written Answer} {later : List (Written Answer)}
    {used used' : List Answer} (h : UsedFor later used') (hok : ∀ a ∈ used, a.fails = false)
    (hsilent : written.bytes = [] ↔ ∀ a ∈ used, a.moves = false)
    (hcomplete : written.Complete) : UsedFor (written :: later) (used ++ used') where
  silent := by rw [List.forall_mem_cons, List.forall_mem_append, hsilent, h.silent]
  unbroken := by
    rw [silentAfterFailure_append _ hok, ← h.unbroken]
    constructor
    · rintro (⟨-, hlater⟩ | ⟨hincomplete, -⟩)
      · exact hlater
      · exact absurd hcomplete hincomplete.not_complete
    · exact fun hlater => .inl ⟨hcomplete, hlater⟩

theorem UsedFor.waits {written : Written Answer} {used : List Answer}
    (hok : ∀ a ∈ used, a.fails = false)
    (hsilent : written.bytes = [] ↔ ∀ a ∈ used, a.moves = false)
    (hincomplete : written.Incomplete) : UsedFor [written] used where
  silent := by simp [hsilent]
  unbroken := by
    have hnever : SilentAfterFailure used := by
      simpa using (silentAfterFailure_append [] hok).2 .nil
    exact iff_of_true (.inr ⟨hincomplete, nofun⟩) hnever

theorem UsedFor.breaks {written : Written Answer} {later : List (Written Answer)}
    {before after used' : List Answer} {a : Answer} (h : UsedFor later used')
    (hok : ∀ a ∈ before, a.fails = false) (hfails : a.fails = true)
    (hsilent : written.bytes = [] ↔ ∀ a ∈ before ++ after, a.moves = false)
    (hincomplete : written.Incomplete ↔ ∀ b ∈ after, b.moves = false)
    (hbroken : ¬ written.Complete) :
    UsedFor (written :: later) (before ++ a :: (after ++ used')) where
  silent := by
    rw [List.forall_mem_cons, hsilent, h.silent]
    simp only [List.forall_mem_append, List.forall_mem_cons, Answer.not_moves hfails, true_and]
    exact and_assoc
  unbroken := by
    rw [silentAfterFailure_append _ hok, silentAfterFailure_cons hfails, List.forall_mem_append,
      ← hincomplete, ← h.silent]
    constructor
    · rintro (⟨hcomplete, -⟩ | hrest)
      · exact absurd hcomplete hbroken
      · exact hrest
    · exact .inr

theorem writeInOrder_usedFor (files : OpenFiles) (packages : List ResponsePackage)
    (answers : List Answer) :
    ∃ used, answers = used ++ (writeInOrder (writeResponse files) packages answers).2.1 ∧
      UsedFor (writeInOrder (writeResponse files) packages answers).1 used := by
  induction packages generalizing answers with
  | nil => exact ⟨[], rfl, usedFor_nil⟩
  | cons package packages ih =>
      have hcourse := writeResponse_course files package answers
      rw [writeInOrder]
      generalize writeResponse files package answers = written at hcourse ⊢
      obtain ⟨used', hused', hlater⟩ := ih written.rest
      cases hcourse with
      | complete used hused hok hsilent hcomplete hwaits =>
          simp only [hwaits, Bool.false_eq_true, if_false]
          refine ⟨used ++ used', ?_, hlater.complete hok hsilent hcomplete⟩
          rw [List.append_assoc, ← hused', ← hused]
      | waits used hused hok hsilent hincomplete hwaits =>
          simp only [hwaits, if_true]
          exact ⟨used, hused, .waits hok hsilent hincomplete⟩
      | breaks before after a hused hok hfails hsilent hincomplete hbroken =>
          cases hwaits : written.waits with
          | true =>
              simp only [if_true]
              refine ⟨before ++ a :: (after ++ []), ?_,
                usedFor_nil.breaks hok hfails hsilent hincomplete hbroken⟩
              simpa using hused
          | false =>
              simp only [Bool.false_eq_true, if_false]
              refine ⟨before ++ a :: (after ++ used'), ?_,
                hlater.breaks hok hfails hsilent hincomplete hbroken⟩
              rw [List.append_assoc, List.cons_append, List.append_assoc, ← hused', ← hused]

variable {W : Type*}

/-- For answers to just the calls that a thread makes: nothing follows a response that
breaks off, exactly when no call moves a byte after one that failed. -/
theorem connectionThread_unbroken_iff (h : Handler W) (files : OpenFiles) (w : W)
    (clientIp : Bytes) (reads : List ReadResult) (answers : List Answer)
    (hanswers : (connectionThread h files w clientIp reads answers).rest = []) :
    Unbroken (connectionThread h files w clientIp reads answers).written ↔
      SilentAfterFailure answers := by
  obtain ⟨hwritten, hrest, -⟩ := threadLoop_writes h (writeResponse files) clientIp
    (reads.length + (reads.map ReadResult.size).sum + 1) w {} reads answers
  obtain ⟨used, hused, hfor⟩ := writeInOrder_usedFor files _ answers
  rw [← hrest] at hused
  rw [connectionThread] at hanswers ⊢
  rw [hanswers, List.append_nil] at hused
  rw [hwritten, hused]
  subst hused
  exact hfor.unbroken

/-- A server of one file, which holds three bytes. -/
def fileServer : Handler Unit where
  handle _ _ _ _ := ({ HttpResponse.ofStatus .Ok with bodyFd := some 5, bodyFdSize := 3 }, ())
  accepting _ := true
  iteration := .inOrder

def abcFiles : OpenFiles := fun _ _ => { content := ascii "abc" }

def oneRequest : List ReadResult := [.ok (ascii "GET / HTTP/1.1\r\n\r\n"), .ok []]

/-- The connection is reset within the header section, and nothing follows. -/
theorem connectionThread_unbroken_iff_closed :
    let answers := [.write (.ok 10), .write (.error .other), .sendfile (.error .other)]
    Unbroken (connectionThread fileServer abcFiles () [] oneRequest answers).written ↔
      SilentAfterFailure answers :=
  connectionThread_unbroken_iff fileServer abcFiles () [] oneRequest _ rfl

/-- The write of the header section is interrupted, and the file is sent nevertheless. -/
theorem interrupted_header_sends_body :
    let answers := [.write (.error .interrupted), .sendfile (.ok 3)]
    let thread := connectionThread fileServer abcFiles () [] oneRequest answers
    thread.rest = [] ∧ thread.written.flatMap Written.bytes = ascii "abc" ∧
      ¬ Unbroken thread.written := by
  refine ⟨rfl, rfl, ?_⟩
  rintro (⟨⟨hhead, -⟩, -⟩ | ⟨⟨-, hbody⟩ | ⟨hhead, -⟩, -⟩)
  · cases hhead
  · cases hbody
  · cases hhead

end CppHttpd
