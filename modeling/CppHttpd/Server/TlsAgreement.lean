import CppHttpd.Server.Tls

/-!
# HTTPS sends what HTTP sends

If every call succeeds, both writers send a response to its end: the header
section, and of the file what the offset and the size say.  They differ where
the file ends before that: `sendfile` is called over and over, while the TLS
writer goes on with the next request.
-/

namespace CppHttpd

open CppHttpd.Foundation

/-- `sendfile` may return zero, but `write` does not. -/
def Answer.succeeds : Answer → Prop
  | .write (.ok n) => 0 < n
  | .sendfile (.ok _) => True
  | _ => False

def TlsAnswer.succeeds : TlsAnswer → Prop
  | .sslWrite (.ok _) => True
  | .fileRead (.ok _) => True
  | _ => False

/-- The part of a file that is to be sent lies within the file, which is just opened. -/
structure WithinFile (file : OpenFile) (offset size : Int) : Prop where
  start : 0 ≤ offset
  stop : offset + size ≤ file.content.length
  opened : offset = 0 → file.position = 0

/-- A body, unless it is empty, is a part of its file. -/
def HasBody (files : Fd → OpenFile) (package : ResponsePackage) : Prop :=
  ∀ fd, package.bodyFd = some fd → 0 < package.bodyFdSize →
    WithinFile (files fd) package.bodyFdOffset package.bodyFdSize

def responseBytes (files : Fd → OpenFile) (package : ResponsePackage) : Bytes :=
  package.bytes ++ package.bodyFd.elim [] fun fd =>
    (files fd).slice package.bodyFdOffset package.bodyFdSize.toNat

/-- A writer for which success is `succeeds` sends each response to its end. -/
structure SendsAll {A : Type*} (succeeds : A → Prop) (files : Fd → OpenFile)
    (write : ResponsePackage → List A → Written A) : Prop where
  bytes : ∀ {package answers}, HasBody files package → (∀ a ∈ answers, succeeds a) →
    (write package answers).waits = false →
      (write package answers).bytes = responseBytes files package
  rest : ∀ {package answers}, (∀ a ∈ answers, succeeds a) →
    ∀ a ∈ (write package answers).rest, succeeds a

theorem SendsAll.writeInOrder {A : Type*} {succeeds : A → Prop} {files : Fd → OpenFile}
    {write : ResponsePackage → List A → Written A} (h : SendsAll succeeds files write)
    {packages : List ResponsePackage} (hbodies : ∀ package ∈ packages, HasBody files package)
    {answers : List A} (hanswers : ∀ a ∈ answers, succeeds a)
    (hwaits : (writeInOrder write packages answers).2.2 = false) :
    (CppHttpd.writeInOrder write packages answers).1.flatMap Written.bytes =
      packages.flatMap (responseBytes files) := by
  induction packages generalizing answers with
  | nil => rfl
  | cons package packages ih =>
      obtain ⟨hbody, hrest⟩ := List.forall_mem_cons.1 hbodies
      rw [CppHttpd.writeInOrder] at hwaits ⊢
      cases hfirst : (write package answers).waits with
      | true => simp [hfirst] at hwaits
      | false =>
          simp only [hfirst, Bool.false_eq_true, if_false] at hwaits ⊢
          rw [List.flatMap_cons, List.flatMap_cons, h.bytes hbody hanswers hfirst,
            ih hrest (h.rest hanswers) hwaits]

/-! ## `write` and `sendfile` -/

theorem Answer.succeeds.not_fails {a : Answer} (h : a.succeeds) : a.fails = false := by
  rcases a with (_ | n) | (_ | n)
  · cases h
  · simpa [Answer.fails, Answer.succeeds, Nat.pos_iff_ne_zero] using h
  · cases h
  · rfl

theorem Course.done {size : Nat} {answers : List Answer} {t : Transfer Answer}
    (h : Course size answers t) (hanswers : ∀ a ∈ answers, a.succeeds)
    (hwaits : t.waits = false) : t.bytes.length = size := by
  cases h with
  | all _ _ _ _ hlength => exact hlength
  | waits _ _ _ _ _ hwaits' => simp [hwaits] at hwaits'
  | breaks _ _ hused _ _ _ _ hfails =>
      have hsucceeds := hanswers _ (hused ▸ List.mem_append_right _ List.mem_cons_self)
      simp [hsucceeds.not_fails] at hfails

theorem Course.rest_succeeds {size : Nat} {answers : List Answer} {t : Transfer Answer}
    (h : Course size answers t) (hanswers : ∀ a ∈ answers, a.succeeds) :
    ∀ a ∈ t.rest, a.succeeds := by
  obtain ⟨used, hused, -⟩ := h.used
  exact fun a ha => hanswers a (hused ▸ List.mem_append_right used ha)

/-- A file that does not change is sent from the offset on. -/
theorem isPrefix_sendfileLoop (files : Fd → OpenFile) (fd : Fd) (answers : List Answer)
    (offset remaining : Int) :
    (sendfileLoop (fun _ => files) fd offset remaining answers).bytes <+:
      (files fd).content.drop offset.toNat := by
  induction answers generalizing offset remaining with
  | nil => exact List.nil_prefix
  | cons answer rest ih =>
      unfold sendfileLoop
      split_ifs
      · split
        · rename_i n
          dsimp only
          split_ifs with hsend
          · obtain ⟨hstart, -, hlength⟩ := hsend
            obtain ⟨missing, hmissing⟩ := ih (offset + n) (remaining - n)
            refine ⟨missing, ?_⟩
            have hsum : (offset + n).toNat = offset.toNat + n := by omega
            rw [List.append_assoc, hmissing, hsum, OpenFile.slice, ← List.drop_drop,
              List.take_append_drop]
          · exact List.nil_prefix
        · split_ifs
          · exact List.nil_prefix
          · exact ih offset remaining
        · exact List.nil_prefix
      · exact List.nil_prefix

theorem eq_take_of_prefix {data whole : Bytes} {n : Nat} (h : data <+: whole)
    (hlength : data.length = n) : data = whole.take n := by
  rw [← hlength]
  exact List.prefix_iff_eq_take.1 h

theorem writeResponse_sendsAll (files : Fd → OpenFile) :
    SendsAll Answer.succeeds files (writeResponse fun _ => files) where
  bytes {package answers} _ hanswers hwaits := by
    have hcourse := writeAll_course package.bytes answers
    rw [Written.waits, Bool.or_eq_false_iff] at hwaits
    obtain ⟨hhead, hbody⟩ := hwaits
    have hbytes : (writeAll package.bytes answers).bytes = package.bytes :=
      writeAll_eq (hcourse.done hanswers hhead)
    have hrest := hcourse.rest_succeeds hanswers
    have hdone := (writeResponse_body _ hhead).done hrest hbody
    apply congr_arg₂ _ hbytes
    have hhead' : (writeAll package.bytes answers).waits = false := hhead
    unfold writeResponse Written.bodySize at hdone
    unfold writeResponse
    simp only [hhead', Bool.false_eq_true, if_false] at hdone ⊢
    cases hfd : package.bodyFd with
    | none => rfl
    | some fd =>
        simp only [hfd] at hdone ⊢
        exact eq_take_of_prefix (isPrefix_sendfileLoop files fd _ _ _) hdone
  rest {package answers} hanswers := by
    have hrest := (writeAll_course package.bytes answers).rest_succeeds hanswers
    cases hwaits : (writeAll package.bytes answers).waits with
    | true =>
        have hbody : (writeResponse (fun _ => files) package answers).rest =
            (writeAll package.bytes answers).rest := by simp [writeResponse, Written.rest, hwaits]
        rwa [hbody]
    | false => exact (writeResponse_body _ hwaits).rest_succeeds hrest

/-! ## `SSL_write` and `read` -/

theorem sslWriteAll_rest (data : Bytes) {answers : List TlsAnswer}
    (hanswers : ∀ a ∈ answers, a.succeeds) :
    ∀ a ∈ (sslWriteAll data answers).2.rest, a.succeeds := by
  induction answers generalizing data with
  | nil => exact hanswers
  | cons answer rest ih =>
      have hrest := (List.forall_mem_cons.1 hanswers).2
      unfold sslWriteAll
      split_ifs
      · exact hanswers
      · split
        · split_ifs
          · exact ih _ hrest
          · exact hanswers
        · split_ifs
          · exact ih _ hrest
          · exact hrest
        · exact hanswers

theorem sslWriteAll_done {data : Bytes} {answers : List TlsAnswer}
    (hanswers : ∀ a ∈ answers, a.succeeds)
    (hwaits : (sslWriteAll data answers).2.waits = false) :
    (sslWriteAll data answers).1 = true ∧ (sslWriteAll data answers).2.bytes = data := by
  induction answers generalizing data with
  | nil =>
      have hdata : data = [] := by simpa [sslWriteAll] using hwaits
      subst hdata
      exact ⟨rfl, rfl⟩
  | cons answer rest ih =>
      obtain ⟨hanswer, hrest⟩ := List.forall_mem_cons.1 hanswers
      unfold sslWriteAll at hwaits ⊢
      split_ifs at hwaits ⊢ with hdata
      · exact ⟨rfl, hdata.symm⟩
      · cases answer with
        | sslWrite result =>
            cases result with
            | ok n =>
                dsimp only at hwaits ⊢
                split_ifs at hwaits ⊢
                obtain ⟨hok, hbytes⟩ := ih hrest hwaits
                refine ⟨hok, ?_⟩
                dsimp only
                rw [hbytes, List.take_append_drop]
            | error => cases hanswer
        | fileRead => cases hwaits

theorem sslBodyLoop_rest (files : OpenFiles) (fd : Fd) (fuel position : Nat) (remaining : Int)
    {answers : List TlsAnswer} (hanswers : ∀ a ∈ answers, a.succeeds) :
    ∀ a ∈ (sslBodyLoop files fd fuel position remaining answers).rest, a.succeeds := by
  induction fuel generalizing position remaining answers with
  | zero => exact hanswers
  | succ fuel ih =>
      unfold sslBodyLoop
      by_cases hpos : remaining > 0
      · rw [if_pos hpos]
        split
        · rename_i n rest
          have hrest := (List.forall_mem_cons.1 hanswers).2
          have hwritten := sslWriteAll_rest ((files rest.length fd).slice position n) hrest
          dsimp only
          split_ifs
          · exact hrest
          · exact hwritten
          · exact ih _ _ hwritten
          · exact hanswers
        · exact (List.forall_mem_cons.1 hanswers).2
        · exact hanswers
      · rw [if_neg hpos]
        exact hanswers

theorem slice_append (file : OpenFile) (position n m : Nat) :
    file.slice position n ++ file.slice (position + n : Nat) m =
      file.slice position (n + m) := by
  simp only [OpenFile.slice, Int.toNat_natCast]
  rw [← List.drop_drop, ← List.take_add]

/-- Within a file the loop ends only when it has sent what remained. -/
theorem sslBodyLoop_done (files : Fd → OpenFile) (fd : Fd) {fuel position : Nat}
    {remaining : Int} {answers : List TlsAnswer} (hanswers : ∀ a ∈ answers, a.succeeds)
    (hwithin : position + remaining ≤ (files fd).content.length)
    (hwaits : (sslBodyLoop (fun _ => files) fd fuel position remaining answers).waits = false) :
    (sslBodyLoop (fun _ => files) fd fuel position remaining answers).bytes =
      (files fd).slice position remaining.toNat := by
  induction fuel generalizing position remaining answers with
  | zero => cases hwaits
  | succ fuel ih =>
      unfold sslBodyLoop at hwaits ⊢
      by_cases hpos : remaining > 0
      · rw [if_pos hpos] at hwaits ⊢
        split at hwaits
        · rename_i n rest
          have hrest := (List.forall_mem_cons.1 hanswers).2
          dsimp only at hwaits ⊢
          by_cases hread : (files fd).CanRead position (tlsToRead remaining) n
          · rw [if_pos hread] at hwaits ⊢
            obtain ⟨hmost, hlength, hend⟩ := hread
            have hle : (n : Int) ≤ remaining := by
              unfold tlsToRead at hmost
              split_ifs at hmost <;> omega
            have hn : n ≠ 0 := fun hzero => by
              have := hend hzero
              omega
            rw [if_neg hn] at hwaits ⊢
            cases hpiece : (sslWriteAll ((files fd).slice position n) rest).2.waits with
            | true => simp [hpiece] at hwaits
            | false =>
                obtain ⟨hok, hbytes⟩ := sslWriteAll_done hrest hpiece
                have hnext := sslWriteAll_rest ((files fd).slice position n) hrest
                simp only [hpiece, hok, Bool.not_true, Bool.false_eq_true, or_self, if_false]
                  at hwaits ⊢
                rw [hbytes, ih hnext (by push_cast; omega) hwaits]
                have hsum : remaining.toNat = n + (remaining - n).toNat := by omega
                rw [hsum]
                exact slice_append _ _ _ _
          · rw [if_neg hread] at hwaits
            cases hwaits
        · have hfailed := (List.forall_mem_cons.1 hanswers).1
          cases hfailed
        · cases hwaits
      · rw [if_neg hpos]
        have hzero : remaining.toNat = 0 := by omega
        simp [hzero, OpenFile.slice]

theorem sslBodyLoop_body {files : Fd → OpenFile} {fd : Fd} {offset size : Int} {fuel : Nat}
    {answers : List TlsAnswer} (hbody : 0 < size → WithinFile (files fd) offset size)
    (hanswers : ∀ a ∈ answers, a.succeeds)
    (hwaits : (sslBodyLoop (fun _ => files) fd (fuel + 1)
      (if offset > 0 then offset.toNat else (files fd).position) size answers).waits = false) :
    (sslBodyLoop (fun _ => files) fd (fuel + 1)
      (if offset > 0 then offset.toNat else (files fd).position) size answers).bytes =
        (files fd).slice offset size.toNat := by
  by_cases hsize : 0 < size
  · obtain ⟨hstart, hstop, hopened⟩ := hbody hsize
    have hposition : (if offset > 0 then offset.toNat else (files fd).position) =
        offset.toNat := by
      split_ifs with hpos
      · rfl
      · have hzero : offset = 0 := by omega
        rw [hopened hzero, hzero]
        rfl
    rw [hposition] at hwaits ⊢
    rw [sslBodyLoop_done files fd hanswers (by omega) hwaits, OpenFile.slice, OpenFile.slice,
      Int.toNat_natCast]
  · unfold sslBodyLoop
    rw [if_neg hsize]
    have hzero : size.toNat = 0 := by omega
    simp [hzero, OpenFile.slice]

theorem sslWriteResponse_sendsAll (files : Fd → OpenFile) :
    SendsAll TlsAnswer.succeeds files (sslWriteResponse fun _ => files) where
  bytes {package answers} hbody hanswers hwaits := by
    rw [Written.waits, Bool.or_eq_false_iff] at hwaits
    obtain ⟨hhead, hlast⟩ := hwaits
    have hhead' : (sslWriteAll package.bytes answers).2.waits = false := hhead
    obtain ⟨-, hbytes⟩ := sslWriteAll_done hanswers hhead'
    have hrest := sslWriteAll_rest package.bytes hanswers
    apply congr_arg₂ _ hbytes
    unfold sslWriteResponse at hlast ⊢
    simp only [hhead', Bool.false_eq_true, if_false] at hlast ⊢
    cases hfd : package.bodyFd with
    | none => rfl
    | some fd =>
        simp only [hfd] at hlast ⊢
        exact sslBodyLoop_body (hbody fd hfd) hrest hlast
  rest {package answers} hanswers := by
    have hrest := sslWriteAll_rest package.bytes hanswers
    unfold sslWriteResponse Written.rest
    by_cases hwaits : (sslWriteAll package.bytes answers).2.waits = true
    · simpa only [if_pos hwaits] using hrest
    · simp only [if_neg hwaits]
      cases package.bodyFd with
      | none => exact hrest
      | some fd => exact sslBodyLoop_rest _ _ _ _ _ hrest

/-! ## Agreement -/

variable {W : Type*}

theorem connectionThread_writes (h : Handler W) (files : OpenFiles) (w : W) (clientIp : Bytes)
    (reads : List ReadResult) (answers : List Answer) :
    let served := handleConnection h w clientIp reads
    Writes (writeResponse files) (served.actions.map Action.package) served.blocked answers
      (connectionThread h files w clientIp reads answers) :=
  threadLoop_writes h _ clientIp _ w {} reads answers

theorem tlsThread_writes (h : Handler W) (files : OpenFiles) (w : W) (clientIp : Bytes)
    (reads : List ReadResult) (answers : List TlsAnswer) :
    let served := handleConnection h w clientIp reads
    Writes (sslWriteResponse files) (served.actions.map Action.package) served.blocked answers
      (tlsThread h files w clientIp reads answers) := by
  rw [tlsThread, tlsLoop_eq]
  exact threadLoop_writes h _ clientIp _ w {} reads answers

/-- A thread that is not in a call sent all responses, and has returned if it is to. -/
theorem Writes.sent {A : Type*} {succeeds : A → Prop} {files : Fd → OpenFile}
    {write : ResponsePackage → List A → Written A} {packages : List ResponsePackage}
    {blocked : Option RequestParser} {answers : List A} {thread : ConnectionThread W A}
    (h : Writes write packages blocked answers thread) (hall : SendsAll succeeds files write)
    (hbodies : ∀ package ∈ packages, HasBody files package)
    (hanswers : ∀ a ∈ answers, succeeds a) (hstage : thread.stage ≠ .writing) :
    thread.written.flatMap Written.bytes = packages.flatMap (responseBytes files) ∧
      thread.stage = blocked.elim .returned .reading := by
  have hwaits : (CppHttpd.writeInOrder write packages answers).2.2 = false := by
    by_contra hne
    rw [h.stage, if_pos (by simpa using hne)] at hstage
    exact hstage rfl
  refine ⟨?_, by rw [h.stage, if_neg (by simp [hwaits])]⟩
  rw [h.written]
  exact hall.writeInOrder hbodies hanswers hwaits

/--
The same requests are answered with the same bytes, and the connection is closed
after the same one, if the bodies lie within their files.
-/
theorem tlsThread_agrees (h : Handler W) (files : Fd → OpenFile) (w : W) (clientIp : Bytes)
    (reads : List ReadResult) (answers : List Answer) (tlsAnswers : List TlsAnswer)
    (hanswers : ∀ a ∈ answers, a.succeeds) (htlsAnswers : ∀ a ∈ tlsAnswers, a.succeeds)
    (hstage : (connectionThread h (fun _ => files) w clientIp reads answers).stage ≠ .writing)
    (htlsStage : (tlsThread h (fun _ => files) w clientIp reads tlsAnswers).stage ≠ .writing)
    (hbodies : ∀ action ∈ (handleConnection h w clientIp reads).actions,
      HasBody files action.package) :
    (tlsThread h (fun _ => files) w clientIp reads tlsAnswers).written.flatMap Written.bytes =
        (connectionThread h (fun _ => files) w clientIp reads answers).written.flatMap
          Written.bytes ∧
      (tlsThread h (fun _ => files) w clientIp reads tlsAnswers).stage =
        (connectionThread h (fun _ => files) w clientIp reads answers).stage := by
  have hpackages : ∀ package ∈ (handleConnection h w clientIp reads).actions.map Action.package,
      HasBody files package := fun package hmem => by
    obtain ⟨action, haction, rfl⟩ := List.mem_map.1 hmem
    exact hbodies action haction
  obtain ⟨hbytes, hend⟩ := (connectionThread_writes h _ w clientIp reads answers).sent
    (writeResponse_sendsAll files) hpackages hanswers hstage
  obtain ⟨htlsBytes, htlsEnd⟩ := (tlsThread_writes h _ w clientIp reads tlsAnswers).sent
    (sslWriteResponse_sendsAll files) hpackages htlsAnswers htlsStage
  exact ⟨htlsBytes.trans hbytes.symm, htlsEnd.trans hend.symm⟩

/-! ## Where the file ends too early -/

/-- At the end of the file `sendfile` sends nothing, and the loop does not notice. -/
theorem sendfileLoop_beyond {files : Fd → OpenFile} {fd : Fd} {answers : List Answer}
    {offset remaining : Int} (hremaining : 0 < remaining)
    (hbeyond : (files fd).content.length < offset + remaining)
    (hanswers : ∀ a ∈ answers, a.succeeds) :
    (sendfileLoop (fun _ => files) fd offset remaining answers).waits = true := by
  by_contra hne
  rw [Bool.not_eq_true] at hne
  have hlength := (sendfileLoop_course (fun _ => files) fd answers offset remaining).done hanswers
    hne
  have hprefix := (isPrefix_sendfileLoop files fd answers offset remaining).length_le
  rw [hlength, List.length_drop] at hprefix
  omega

theorem writeResponse_beyond (files : Fd → OpenFile) {package : ResponsePackage} {fd : Fd}
    {answers : List Answer} (hfd : package.bodyFd = some fd) (hsize : 0 < package.bodyFdSize)
    (hbeyond : (files fd).content.length < package.bodyFdOffset + package.bodyFdSize)
    (hanswers : ∀ a ∈ answers, a.succeeds) :
    (writeResponse (fun _ => files) package answers).waits = true := by
  have hrest := (writeAll_course package.bytes answers).rest_succeeds hanswers
  cases hhead : (writeAll package.bytes answers).waits with
  | true => simp [writeResponse, Written.waits, hhead]
  | false =>
      have hbody := sendfileLoop_beyond hsize hbeyond hrest
      simp [writeResponse, Written.waits, hhead, hfd, hbody]

/-- A server that says there are five bytes in a file of three. -/
def longBodyServer : Handler Unit where
  handle _ _ _ _ := ({ HttpResponse.ofStatus .Ok with bodyFd := some 5, bodyFdSize := 5 }, ())
  accepting _ := true
  iteration := .inOrder

def lastRequest : List ReadResult :=
  [.ok (ascii "GET / HTTP/1.1\r\nConnection: close\r\n\r\n")]

def rangeServer : Handler Unit where
  handle _ _ _ _ := ({ HttpResponse.ofStatus .Ok with
    bodyFd := some 5, bodyFdOffset := 1, bodyFdSize := 2 }, ())
  accepting _ := true
  iteration := .inOrder

/-- The range of a body reaches to the end of its file. -/
theorem tlsThread_agrees_range :
    let files : Fd → OpenFile := fun _ => { content := ascii "abc" }
    let answers := [.write (.ok 30), .write (.ok 8), .sendfile (.ok 1), .sendfile (.ok 1)]
    let tlsAnswers := [.sslWrite (.ok 38), .fileRead (.ok 2), .sslWrite (.ok 2)]
    (tlsThread rangeServer (fun _ => files) () [] lastRequest tlsAnswers).written.flatMap
          Written.bytes =
        (connectionThread rangeServer (fun _ => files) () [] lastRequest answers).written.flatMap
          Written.bytes ∧
      (tlsThread rangeServer (fun _ => files) () [] lastRequest tlsAnswers).stage =
        (connectionThread rangeServer (fun _ => files) () [] lastRequest answers).stage := by
  refine tlsThread_agrees rangeServer (fun _ => { content := ascii "abc" }) () [] lastRequest _ _
    (by simp [Answer.succeeds]) (by simp [TlsAnswer.succeeds]) nofun nofun ?_
  intro action haction fd _ _
  obtain ⟨package, hpackages, hoffset, hsize⟩ : ∃ package,
      (handleConnection rangeServer () [] lastRequest).actions.map Action.package = [package] ∧
        package.bodyFdOffset = 1 ∧ package.bodyFdSize = 2 := ⟨_, rfl, rfl, rfl⟩
  have hmem : action.package ∈ [package] := hpackages ▸ List.mem_map_of_mem haction
  rw [List.mem_singleton.1 hmem, hoffset, hsize]
  have hstop : (1 : Int) + 2 ≤ (ascii "abc").length := by decide
  exact ⟨by decide, hstop, fun _ => rfl⟩

/-- Over TLS the connection is closed behind the three bytes.  Without it the thread never
leaves the response, whatever `sendfile` returns. -/
theorem tls_closes_after_short_file :
    let files : Fd → OpenFile := fun _ => { content := ascii "abc" }
    (∃ tlsAnswers, (∀ a ∈ tlsAnswers, a.succeeds) ∧
        (tlsThread longBodyServer (fun _ => files) () [] lastRequest tlsAnswers).stage =
          .returned) ∧
      ∀ answers, (∀ a ∈ answers, a.succeeds) →
        (connectionThread longBodyServer (fun _ => files) () [] lastRequest answers).stage =
          .writing := by
  refine ⟨⟨[.sslWrite (.ok 38), .fileRead (.ok 3), .sslWrite (.ok 3), .fileRead (.ok 0)],
    by simp [TlsAnswer.succeeds], rfl⟩, fun answers hanswers => ?_⟩
  obtain ⟨package, hpackages, hfd, hoffset, hsize⟩ : ∃ package,
      (handleConnection longBodyServer () [] lastRequest).actions.map Action.package = [package] ∧
        package.bodyFd = some 5 ∧ package.bodyFdOffset = 0 ∧ package.bodyFdSize = 5 :=
    ⟨_, rfl, rfl, rfl, rfl⟩
  have hwaits := writeResponse_beyond (fun _ => { content := ascii "abc" }) hfd (by omega)
    (by rw [hoffset, hsize]; decide) hanswers
  rw [(connectionThread_writes longBodyServer _ () [] lastRequest answers).stage, hpackages]
  simp [writeInOrder, hwaits]

end CppHttpd
