import CppHttpd.Foundation.Bytes

/-!
# Lines

A text is written line by line, and each line has an end of its own: a line feed
alone or behind a carriage return.  `std::getline` leaves the carriage return.
-/

namespace CppHttpd.Foundation

inductive LineTerminator where
  | lf
  | crlf
  deriving DecidableEq, Repr

/-- What `std::getline` leaves of the end. -/
def LineTerminator.leftover : LineTerminator → Bytes
  | .lf => []
  | .crlf => [CR]

def LineTerminator.toBytes (e : LineTerminator) : Bytes := e.leftover ++ [LF]

def writeLines (lines : List (Bytes × LineTerminator)) : Bytes :=
  lines.flatMap fun line => line.1 ++ line.2.toBytes

theorem splitOn_terminated (lines : List Bytes) (h : ∀ line ∈ lines, LF ∉ line) :
    (lines.flatMap (· ++ [LF])).splitOn LF = lines ++ [[]] := by
  induction lines with
  | nil => rfl
  | cons line lines ih =>
      obtain ⟨hline, hlines⟩ := List.forall_mem_cons.1 h
      have hfirst : ∀ c ∈ line, (c == LF) = false := fun c hc =>
        beq_false_of_ne fun heq => hline (heq ▸ hc)
      have hsplit := List.splitOnP_append_cons_of_forall_mem hfirst LF (by simp)
        (lines.flatMap (· ++ [LF]))
      rw [List.flatMap_cons, List.append_assoc, List.singleton_append,
        List.splitOn_eq_splitOnP, hsplit, ← List.splitOn_eq_splitOnP, ih hlines]
      rfl

/-- Nothing is extracted behind the last line feed. -/
theorem getLines_terminated {lines : List Bytes} (h : ∀ line ∈ lines, LF ∉ line) :
    getLines LF (lines.flatMap (· ++ [LF])) = lines := by
  rw [getLines, splitOn_terminated lines h]
  simp

theorem getLines_cons {line : Bytes} (hline : LF ∉ line) (rest : Bytes) :
    getLines LF (line ++ LF :: rest) = line :: getLines LF rest := by
  have hne : rest.splitOn LF ≠ [] := List.splitOn_ne_nil LF rest
  simp only [getLines, List.splitOn_append_cons_self_of_not_mem hline]
  rw [List.getLast?_cons_of_ne_nil hne]
  split_ifs
  · exact List.dropLast_cons_of_ne_nil hne
  · rfl

/-- A last line without an end is extracted as well. -/
theorem getLines_terminated_append {lines : List Bytes} (h : ∀ line ∈ lines, LF ∉ line)
    (rest : Bytes) :
    getLines LF (lines.flatMap (· ++ [LF]) ++ rest) = lines ++ getLines LF rest := by
  induction lines with
  | nil => rfl
  | cons line lines ih =>
      obtain ⟨hline, hlines⟩ := List.forall_mem_cons.1 h
      rw [List.flatMap_cons, List.append_assoc, List.append_assoc, List.singleton_append,
        getLines_cons hline, ih hlines, List.cons_append]

theorem LineTerminator.lf_notMem_leftover (e : LineTerminator) : LF ∉ e.leftover := by
  cases e <;> decide

theorem getLines_writeLines {lines : List (Bytes × LineTerminator)}
    (h : ∀ line ∈ lines, LF ∉ line.1) :
    getLines LF (writeLines lines) = lines.map fun line => line.1 ++ line.2.leftover := by
  have hwrite : writeLines lines =
      (lines.map fun line => line.1 ++ line.2.leftover).flatMap (· ++ [LF]) := by
    simp only [writeLines, List.flatMap_map, LineTerminator.toBytes, List.append_assoc]
  rw [hwrite, getLines_terminated]
  intro line hline
  obtain ⟨line, hmem, rfl⟩ := List.mem_map.1 hline
  rw [List.mem_append, not_or]
  exact ⟨h line hmem, line.2.lf_notMem_leftover⟩

/-! ## Blank lines -/

/-- A line that is not blank and has no part of a line end in it. -/
structure TextLine (line : Bytes) : Prop where
  ne_nil : line ≠ []
  noCR : CR ∉ line
  noLF : LF ∉ line

/-- The lines with an end between any two of them. -/
def joinLines (e : LineTerminator) (lines : List Bytes) : Bytes := e.toBytes.intercalate lines

theorem joinLines_cons_cons (e : LineTerminator) (line line' : Bytes) (lines : List Bytes) :
    joinLines e (line :: line' :: lines) =
      line ++ (e.toBytes ++ joinLines e (line' :: lines)) := by
  simp [joinLines, List.intercalate, List.intersperse]

theorem joinLines_singleton (e : LineTerminator) (line : Bytes) : joinLines e [line] = line := by
  simp [joinLines, List.intercalate]

theorem flatMap_eq_joinLines (e : LineTerminator) {lines : List Bytes} (hne : lines ≠ []) :
    lines.flatMap (· ++ e.toBytes) = joinLines e lines ++ e.toBytes := by
  induction lines with
  | nil => exact absurd rfl hne
  | cons line lines ih =>
      cases lines with
      | nil => simp [joinLines_singleton]
      | cons line' lines =>
          rw [List.flatMap_cons, ih (by simp), joinLines_cons_cons]
          simp

theorem notMem_joinLines {c : Byte} {e : LineTerminator} (he : c ∉ e.toBytes)
    {lines : List Bytes} (hlines : ∀ line ∈ lines, c ∉ line) : c ∉ joinLines e lines := by
  induction lines with
  | nil => simp [joinLines]
  | cons line lines ih =>
      obtain ⟨hline, hrest⟩ := List.forall_mem_cons.1 hlines
      cases lines with
      | nil => rwa [joinLines_singleton]
      | cons line' lines =>
          rw [joinLines_cons_cons, List.mem_append, List.mem_append, not_or, not_or]
          exact ⟨hline, he, ih hrest⟩

theorem joinLines_head {e : LineTerminator} {line : Bytes} (h : TextLine line)
    (lines : List Bytes) :
    ∃ c rest, joinLines e (line :: lines) = c :: rest ∧ c ≠ CR ∧ c ≠ LF := by
  obtain ⟨c, tail, rfl⟩ := List.exists_cons_of_ne_nil h.ne_nil
  have hCR : c ≠ CR := fun heq => h.noCR (by simp [heq])
  have hLF : c ≠ LF := fun heq => h.noLF (by simp [heq])
  cases lines with
  | nil => exact ⟨c, tail, joinLines_singleton _ _, hCR, hLF⟩
  | cons line' lines => exact ⟨c, _, by rw [joinLines_cons_cons]; rfl, hCR, hLF⟩

/-- Behind the end of a line no blank line starts before the next text. -/
theorem findSub_lineEnd {e : LineTerminator} {c : Byte} (hCR : c ≠ CR) (hLF : c ≠ LF)
    (rest : Bytes) :
    findSub (e.toBytes ++ e.toBytes) (e.toBytes ++ c :: rest) =
      (findSub (e.toBytes ++ e.toBytes) (c :: rest)).map (e.toBytes.length + ·) := by
  cases e with
  | lf =>
      have hfirst : ¬ [LF, LF] <+: LF :: c :: rest := by
        simp [Ne.symm hLF]
      change findSub [LF, LF] (LF :: c :: rest) = (findSub [LF, LF] (c :: rest)).map (1 + ·)
      rw [findSub_cons hfirst]
      simp only [Nat.add_comm]
  | crlf =>
      have hfirst : ¬ [CR, LF, CR, LF] <+: CR :: LF :: c :: rest := by
        simp [Ne.symm hCR]
      have hsecond : ¬ [CR, LF, CR, LF] <+: LF :: c :: rest := by
        simp [(by decide : CR ≠ LF)]
      change findSub [CR, LF, CR, LF] (CR :: LF :: c :: rest) =
        (findSub [CR, LF, CR, LF] (c :: rest)).map (2 + ·)
      rw [findSub_cons hfirst, findSub_cons hsecond, Option.map_map]
      congr 1
      funext i
      simp only [Function.comp_apply]
      omega

theorem findSub_line {e : LineTerminator} {line : Bytes} (h : TextLine line) (rest : Bytes) :
    findSub (e.toBytes ++ e.toBytes) (line ++ rest) =
      (findSub (e.toBytes ++ e.toBytes) rest).map (line.length + ·) := by
  cases e with
  | lf => exact findSub_skip h.noLF rest
  | crlf => exact findSub_skip h.noCR rest

/-- The first blank line is the one behind the lines. -/
theorem findSub_blankLine (e : LineTerminator) {lines : List Bytes} (hne : lines ≠ [])
    (hlines : ∀ line ∈ lines, TextLine line) (rest : Bytes) :
    findSub (e.toBytes ++ e.toBytes) (joinLines e lines ++ (e.toBytes ++ e.toBytes ++ rest)) =
      some (joinLines e lines).length := by
  induction lines with
  | nil => exact absurd rfl hne
  | cons line lines ih =>
      obtain ⟨hline, hrest⟩ := List.forall_mem_cons.1 hlines
      cases lines with
      | nil =>
          rw [joinLines_singleton, findSub_line hline, findSub_append]
          rfl
      | cons line' lines =>
          have hnext := ih (by simp) hrest
          obtain ⟨c, tail, htext, hCR, hLF⟩ := joinLines_head (e := e)
            (hrest line' List.mem_cons_self) lines
          rw [htext, List.cons_append] at hnext
          rw [joinLines_cons_cons, htext, List.append_assoc, List.append_assoc, List.cons_append,
            findSub_line hline, findSub_lineEnd hCR hLF, hnext]
          simp only [Option.map_some, List.length_append, List.length_cons]

/-- What `std::getline` makes of joined lines: the last of them has no end. -/
def openLines (e : LineTerminator) : List Bytes → List Bytes
  | [] => []
  | [line] => [line]
  | line :: line' :: lines => (line ++ e.leftover) :: openLines e (line' :: lines)

theorem openLines_ne_nil (e : LineTerminator) (line : Bytes) (lines : List Bytes) :
    openLines e (line :: lines) ≠ [] := by
  cases lines <;> simp [openLines]

theorem joinLines_eq (e : LineTerminator) (lines : List Bytes) :
    joinLines e lines = [LF].intercalate (openLines e lines) := by
  induction lines with
  | nil => rfl
  | cons line lines ih =>
      cases lines with
      | nil => simp [joinLines_singleton, openLines, List.intercalate]
      | cons line' lines =>
          obtain ⟨first, more, hopen⟩ :=
            List.exists_cons_of_ne_nil (openLines_ne_nil e line' lines)
          rw [joinLines_cons_cons, ih, openLines, hopen, LineTerminator.toBytes]
          simp [List.intercalate, List.intersperse]

theorem lf_notMem_openLines {e : LineTerminator} {lines : List Bytes}
    (hlines : ∀ line ∈ lines, TextLine line) : ∀ line ∈ openLines e lines, LF ∉ line := by
  induction lines with
  | nil => simp [openLines]
  | cons line lines ih =>
      obtain ⟨hline, hrest⟩ := List.forall_mem_cons.1 hlines
      cases lines with
      | nil => simpa [openLines] using hline.noLF
      | cons line' lines =>
          rw [openLines, List.forall_mem_cons, List.mem_append, not_or]
          exact ⟨⟨hline.noLF, e.lf_notMem_leftover⟩, ih hrest⟩

theorem getLast?_openLines (e : LineTerminator) (lines : List Bytes) :
    (openLines e lines).getLast? = lines.getLast? := by
  induction lines with
  | nil => rfl
  | cons line lines ih =>
      cases lines with
      | nil => rfl
      | cons line' lines =>
          rw [openLines, List.getLast?_cons, ih, List.getLast?_cons_cons]
          rw [List.getLast?_eq_some_getLast (List.cons_ne_nil line' lines)]
          rfl

theorem getLines_joinLines (e : LineTerminator) {lines : List Bytes} (hne : lines ≠ [])
    (hlines : ∀ line ∈ lines, TextLine line) :
    getLines LF (joinLines e lines) = openLines e lines := by
  obtain ⟨line, rest, rfl⟩ := List.exists_cons_of_ne_nil hne
  have hsplit : (joinLines e (line :: rest)).splitOn LF = openLines e (line :: rest) := by
    rw [joinLines_eq]
    exact List.splitOn_intercalate LF (lf_notMem_openLines hlines) (openLines_ne_nil e line rest)
  have hlast : (openLines e (line :: rest)).getLast? ≠ some [] := by
    rw [getLast?_openLines]
    intro hempty
    exact (hlines [] (List.mem_of_getLast? hempty)).ne_nil rfl
  unfold getLines
  rw [hsplit]
  exact if_neg hlast

/-! ## Reading line by line -/

section

variable {α β γ : Type*} {f : β → α → β} (get : β → γ) {v : γ}

theorem foldl_keeps (hkeep : ∀ b a, get b = v → get (f b a) = v) (lines : List α) {b : β}
    (hb : get b = v) : get (lines.foldl f b) = v := by
  induction lines generalizing b with
  | nil => exact hb
  | cons a lines ih => exact ih (hkeep b a hb)

/-- What one line sets and none changes is set in the end. -/
theorem foldl_sets (hkeep : ∀ b a, get b = v → get (f b a) = v) {lines : List α} (b : β)
    (h : ∃ a ∈ lines, ∀ b, get (f b a) = v) : get (lines.foldl f b) = v := by
  obtain ⟨a, hmem, hset⟩ := h
  obtain ⟨before, after, rfl⟩ := List.append_of_mem hmem
  rw [List.foldl_append, List.foldl_cons]
  exact foldl_keeps get hkeep after (hset _)

/-- Of the lines that set a value, the last one does. -/
theorem foldl_last (value? : α → Option γ)
    (hset : ∀ b a, get (f b a) = (value? a).getD (get b)) (lines : List α) (b : β) :
    get (lines.foldl f b) = ((lines.filterMap value?).getLast?).getD (get b) := by
  induction lines generalizing b with
  | nil => rfl
  | cons a lines ih =>
      rw [List.foldl_cons, ih, hset]
      cases ha : value? a with
      | none => rw [List.filterMap_cons_none ha, Option.getD_none]
      | some v =>
          rw [List.filterMap_cons_some ha, List.getLast?_cons, Option.getD_some, Option.getD_some]

end

end CppHttpd.Foundation
