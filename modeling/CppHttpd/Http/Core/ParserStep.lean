import CppHttpd.Http.Core.RequestParser

/-!
# Single turns of the parser

What one turn of `advance()` can do, independently of how much of the stream
has arrived: a turn that makes progress consumes a line or the body at the
front of the buffer and leaves the rest of the buffer alone.
-/

namespace CppHttpd

open CppHttpd.Foundation

/-! ## Cutting lines -/

def dropCR (raw : Bytes) : Bytes :=
  if raw.getLast? = some CR then raw.dropLast else raw

private theorem findLineEnd_cr {init : Bytes} (h : LF ∉ init) (rest : Bytes) :
    findLineEnd (init ++ CR :: LF :: rest) 0 = some init.length := by
  have hraw : LF ∉ init ++ [CR] := by simpa [h] using (by decide : LF ≠ CR)
  have hfind := find_append_cons hraw rest
  simp only [List.append_assoc, List.singleton_append, List.length_append,
    List.length_singleton] at hfind
  simp [findLineEnd, hfind]

private theorem findLineEnd_lf {raw : Bytes} (h : LF ∉ raw)
    (hlast : raw.getLast? ≠ some CR) (rest : Bytes) :
    findLineEnd (raw ++ LF :: rest) 0 = some raw.length := by
  simp only [findLineEnd, find_append_cons h rest]
  rw [if_neg]
  rintro ⟨hpos, hcr⟩
  rw [List.getElem?_append_left (by omega), ← List.getLast?_eq_getElem?] at hcr
  exact hlast hcr

theorem cutLine_append {raw : Bytes} (h : LF ∉ raw) (rest : Bytes) :
    cutLine (raw ++ LF :: rest) = some (dropCR raw, rest) := by
  by_cases hlast : raw.getLast? = some CR
  · obtain ⟨init, rfl⟩ := List.getLast?_eq_some_iff.mp hlast
    have hinit : LF ∉ init := fun m => h (by simp [m])
    have hbuf : init ++ [CR] ++ LF :: rest = init ++ CR :: LF :: rest := by simp
    have hterm : lineTerminatorLen (init ++ CR :: LF :: rest) init.length = 2 := by
      simp [lineTerminatorLen]
    have hdrop : (init ++ CR :: LF :: rest).drop (init.length + 2) = rest := by
      rw [List.drop_append]
      simp
    rw [hbuf, cutLine, findLineEnd_cr hinit]
    simp only [hterm, hdrop]
    simp [dropCR]
  · have hterm : lineTerminatorLen (raw ++ LF :: rest) raw.length = 1 := by
      simp [lineTerminatorLen, (by decide : LF ≠ CR)]
    have hdrop : (raw ++ LF :: rest).drop (raw.length + 1) = rest := by
      rw [List.drop_append]
      simp
    rw [cutLine, findLineEnd_lf h hlast]
    simp only [hterm, hdrop]
    simp [dropCR, hlast]

theorem cutLine_none {buffer : Bytes} (h : LF ∉ buffer) : cutLine buffer = none := by
  simp [cutLine, findLineEnd, find_none h]

theorem cutLine_cases (buffer : Bytes) :
    (LF ∉ buffer ∧ cutLine buffer = none) ∨
      ∃ raw rest, LF ∉ raw ∧ buffer = raw ++ LF :: rest ∧
        cutLine buffer = some (dropCR raw, rest) := by
  cases h : find buffer LF 0 with
  | none =>
      have hmem : LF ∉ buffer := by simpa [find_eq_none_iff] using h
      exact .inl ⟨hmem, cutLine_none hmem⟩
  | some i =>
      obtain ⟨hsplit, hraw⟩ := find_split h
      refine .inr ⟨buffer.take i, buffer.drop (i + 1), hraw, hsplit, ?_⟩
      conv_lhs => rw [hsplit]
      exact cutLine_append hraw _

theorem cutLine_append_right {buffer line rest : Bytes}
    (h : cutLine buffer = some (line, rest)) (xs : Bytes) :
    cutLine (buffer ++ xs) = some (line, rest ++ xs) := by
  rcases cutLine_cases buffer with ⟨-, hnone⟩ | ⟨raw, tail, hraw, rfl, hsome⟩
  · rw [hnone] at h
    cases h
  · rw [hsome] at h
    cases h
    rw [List.append_assoc, List.cons_append]
    exact cutLine_append hraw _

theorem cutLine_length {buffer line rest : Bytes}
    (h : cutLine buffer = some (line, rest)) : rest.length < buffer.length := by
  rcases cutLine_cases buffer with ⟨-, hnone⟩ | ⟨raw, tail, hraw, rfl, hsome⟩
  · rw [hnone] at h
    cases h
  · rw [hsome] at h
    cases h
    simp
    omega

/-- The bytes up to the next line feed, or all bytes if there is none. -/
def currentLine (buffer : Bytes) : Bytes := buffer.takeWhile (· != LF)

theorem currentLine_of_cutLine_none {buffer : Bytes} (h : cutLine buffer = none)
    (xs : Bytes) : buffer.length ≤ (currentLine (buffer ++ xs)).length := by
  rcases cutLine_cases buffer with ⟨hmem, -⟩ | ⟨raw, rest, -, -, hsome⟩
  · have hall : ∀ c ∈ buffer, (c != LF) = true := by
      intro c hc
      simpa using fun e : c = LF => hmem (e ▸ hc)
    rw [currentLine, List.takeWhile_append_of_pos hall]
    simp
  · rw [hsome] at h
    cases h

namespace RequestParser

def append (p : RequestParser) (xs : Bytes) : RequestParser :=
  { p with buffer := p.buffer ++ xs }

@[simp] theorem append_buffer (p : RequestParser) (xs : Bytes) :
    (p.append xs).buffer = p.buffer ++ xs := rfl

@[simp] theorem append_state (p : RequestParser) (xs : Bytes) :
    (p.append xs).state = p.state := rfl

@[simp] theorem append_nil (p : RequestParser) : p.append [] = p := by
  simp [append]

@[simp] theorem append_append (p : RequestParser) (xs ys : Bytes) :
    (p.append xs).append ys = p.append (xs ++ ys) := by
  simp [append]

/-! ## The buffer plays no part in reading a line -/

theorem parseRequestLine_append (p : RequestParser) (line xs : Bytes) :
    parseRequestLine (p.append xs) line =
      ((parseRequestLine p line).1, (parseRequestLine p line).2.append xs) := by
  unfold parseRequestLine
  split
  · rfl
  · split
    · rfl
    · split
      · rfl
      · simp only [append, acceptMethod, fail]
        split_ifs <;> rfl

theorem acceptLength_append (p : RequestParser) (cl : Nat) (xs : Bytes) :
    acceptLength (p.append xs) cl =
      ((acceptLength p cl).1, (acceptLength p cl).2.append xs) := by
  by_cases h : cl > MAX_BODY_SIZE <;> simp [acceptLength, append, fail, h]

theorem endHeaders_append (p : RequestParser) (xs : Bytes) :
    endHeaders (p.append xs) = ((endHeaders p).1, (endHeaders p).2.append xs) := by
  unfold endHeaders
  simp only [append]
  split
  · exact acceptLength_append p 0 xs
  · split
    · rfl
    · split_ifs
      · rfl
      · exact acceptLength_append p _ xs

theorem storeHeader_append (p : RequestParser) (line xs : Bytes) :
    storeHeader (p.append xs) line =
      ((storeHeader p line).1, (storeHeader p line).2.append xs) := by
  simp only [storeHeader, append, fail]
  split_ifs <;> rfl

/-! ## What a line leads to -/

/-- A turn on a line or body either makes progress into one of the `next` states or fails. -/
structure Ends (p : RequestParser) (next : List ParserState)
    (r : Bool × RequestParser) : Prop where
  buffer_eq : r.2.buffer = p.buffer
  state_mem : r.1 = true ∧ r.2.state ∈ next ∨ r.1 = false ∧ r.2.state = .error

theorem parseRequestLine_ends (p : RequestParser) (line : Bytes) :
    Ends p [.headers] (parseRequestLine p line) := by
  unfold parseRequestLine
  split
  · exact ⟨rfl, .inr ⟨rfl, rfl⟩⟩
  · split
    · exact ⟨rfl, .inr ⟨rfl, rfl⟩⟩
    · simp only [acceptMethod, fail]
      split_ifs <;> constructor <;> simp

theorem acceptLength_ends (p : RequestParser) (cl : Nat) :
    Ends p [.body, .done] (acceptLength p cl) := by
  simp only [acceptLength, fail]
  split_ifs <;> constructor <;> simp

theorem endHeaders_ends (p : RequestParser) :
    Ends p [.body, .done] (endHeaders p) := by
  unfold endHeaders
  split
  · exact acceptLength_ends p 0
  · split
    · exact ⟨rfl, .inr ⟨rfl, rfl⟩⟩
    · split_ifs
      · exact ⟨rfl, .inr ⟨rfl, rfl⟩⟩
      · exact acceptLength_ends p _

theorem storeHeader_ends (p : RequestParser) (line : Bytes) :
    Ends p [p.state] (storeHeader p line) := by
  simp only [storeHeader, fail]
  split_ifs <;> constructor <;> simp

/-! ## Turns -/

structure LineWithin (p : RequestParser) : Prop where
  requestLine : p.state = .requestLine →
    (currentLine p.buffer).length ≤ MAX_REQUEST_LINE
  headerLine : p.state = .headers →
    (currentLine p.buffer).length ≤ MAX_HEADER_LINE

/-- A turn either waits, or fails, or consumes something at the front of the buffer. -/
inductive TurnOutcome (p : RequestParser) : Bool × RequestParser → Prop
  | waits : TurnOutcome p (false, p)
  | fails {p' : RequestParser} : p.state ≠ .error → p'.state = .error →
      p'.buffer.length ≤ p.buffer.length → TurnOutcome p (false, p')
  | consumes {p' : RequestParser} : p'.state ≠ .error → p'.state ≠ .requestLine →
      p'.buffer.length < p.buffer.length → TurnOutcome p (true, p')
  | finishes {p' : RequestParser} : p.state = .body → p'.state = .done →
      p'.buffer.length ≤ p.buffer.length → TurnOutcome p (true, p')

theorem Ends.outcome {p q : RequestParser} {next : List ParserState}
    {r : Bool × RequestParser} (h : Ends q next r)
    (hnext : .error ∉ next ∧ .requestLine ∉ next)
    (hstate : p.state ≠ .error) (hlt : q.buffer.length < p.buffer.length) :
    TurnOutcome p r := by
  obtain ⟨progress, p'⟩ := r
  have hbuf : p'.buffer.length < p.buffer.length := by rw [h.buffer_eq]; exact hlt
  rcases h.state_mem with ⟨htrue, hmem⟩ | ⟨hfalse, herr⟩
  · dsimp only at htrue hmem
    subst htrue
    exact .consumes (fun e => hnext.1 (e ▸ hmem)) (fun e => hnext.2 (e ▸ hmem)) hbuf
  · dsimp only at hfalse herr
    subst hfalse
    exact .fails hstate herr hbuf.le

theorem turn_outcome (p : RequestParser) : TurnOutcome p p.turn := by
  unfold turn
  cases hstate : p.state with
  | requestLine =>
      have hne : p.state ≠ .error := by rw [hstate]; decide
      simp only [processRequestLine]
      cases hcut : cutLine p.buffer with
      | none =>
          dsimp only
          split_ifs
          · exact .fails hne rfl le_rfl
          · exact .waits
      | some cut =>
          exact (parseRequestLine_ends _ _).outcome (by decide) hne (cutLine_length hcut)
  | headers =>
      have hne : p.state ≠ .error := by rw [hstate]; decide
      simp only [processHeaders]
      cases hcut : cutLine p.buffer with
      | none =>
          dsimp only
          split_ifs
          · exact .fails hne rfl le_rfl
          · exact .waits
      | some cut =>
          dsimp only
          split_ifs
          · exact (endHeaders_ends _).outcome (by decide) hne (cutLine_length hcut)
          · exact (storeHeader_ends _ _).outcome
              (by simp [hstate]) hne (cutLine_length hcut)
  | body =>
      simp only [processBody]
      split_ifs
      · exact .finishes hstate rfl le_rfl
      · exact .waits
      · exact .finishes hstate rfl (by simp)
  | done => exact .waits
  | error => exact .waits

/-- A turn that does anything does the same with more of the stream at hand. -/
theorem turn_append {p : RequestParser} {xs : Bytes}
    (hline : LineWithin (p.append xs))
    (hmoves : p.turn.1 = true ∨ p.turn.2.state = .error) :
    (p.append xs).turn = (p.turn.1, p.turn.2.append xs) := by
  unfold turn at hmoves ⊢
  rw [append_state]
  cases hstate : p.state with
  | requestLine =>
      simp only [hstate, processRequestLine] at hmoves ⊢
      cases hcut : cutLine p.buffer with
      | none =>
          have hlen := currentLine_of_cutLine_none hcut xs
          have hmax := hline.requestLine hstate
          rw [append_buffer] at hmax
          simp only [hcut] at hmoves
          rw [if_neg (by omega)] at hmoves
          simp [hstate] at hmoves
      | some cut =>
          rw [append_buffer, cutLine_append_right hcut]
          exact parseRequestLine_append { p with buffer := cut.2 } cut.1 xs
  | headers =>
      simp only [hstate, processHeaders] at hmoves ⊢
      cases hcut : cutLine p.buffer with
      | none =>
          have hlen := currentLine_of_cutLine_none hcut xs
          have hmax := hline.headerLine hstate
          rw [append_buffer] at hmax
          simp only [hcut] at hmoves
          rw [if_neg (by omega)] at hmoves
          simp [hstate] at hmoves
      | some cut =>
          rw [append_buffer, cutLine_append_right hcut]
          dsimp only
          split_ifs
          · exact endHeaders_append { p with buffer := cut.2 } xs
          · have happ := storeHeader_append { p with buffer := cut.2 } cut.1 xs
            simp only [append, hstate] at happ ⊢
            exact happ
  | body =>
      simp only [hstate, processBody] at hmoves ⊢
      by_cases hzero : p.bodyBytesRemaining = 0
      · simp [hzero, append]
      · by_cases hshort : p.buffer.length < p.bodyBytesRemaining
        · simp [hzero, hshort, hstate] at hmoves
        · have hlen : ¬ (p.buffer ++ xs).length < p.bodyBytesRemaining := by
            simp only [List.length_append]
            omega
          have hle : p.bodyBytesRemaining ≤ p.buffer.length := by omega
          simp [hzero, hshort, append, List.take_append_of_le_length hle,
            List.drop_append_of_le_length hle]
          omega
  | done => simp [hstate] at hmoves
  | error => rfl

end RequestParser
end CppHttpd
