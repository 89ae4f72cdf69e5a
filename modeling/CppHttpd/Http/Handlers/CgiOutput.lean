import CppHttpd.Foundation.Lines
import CppHttpd.Http.Handlers.Framing
import CppHttpd.Os.Formatting

/-!
# The output of CGI programs

`parse_cgi_output` looks for a blank line of one kind in the whole output
before it looks for one of the other kind, and it takes the status from what
formatted extraction makes of a line.
-/

namespace CppHttpd

open CppHttpd.Foundation

/-! ## What the header lines say -/

def statusText (line : Bytes) : Option Bytes :=
  if line.take 8 = ascii "Status: " then some (line.drop 8) else none

/-- The code and the reason phrase, without which the response is `200 OK`. -/
def statusOf (uninitialised : Int) : Option Bytes → StatusCode × Bytes
  | none => (.Ok, ascii "OK")
  | some text =>
      (⟨(readStatus uninitialised text).1⟩, trim (readStatus uninitialised text).2 (ascii " "))

/-- The value of the last of these fields under a name. -/
def lastField (fields : List (Bytes × Bytes)) (name : Bytes) : Option Bytes :=
  (fields.filter (·.1 = name)).getLast?.map Prod.snd

/-- The response says what the lines say, and carries the body. -/
structure TakenFrom (uninitialised : Int) (lines : List Bytes) (body : Bytes)
    (r : HttpResponse) : Prop where
  body_eq : r.body = body
  status_eq : (r.statusCode, r.statusMessage) =
    statusOf uninitialised (lines.filterMap statusText).getLast?
  headers_eq : ∀ name, r.headers.lookup name =
    if name = ascii "Transfer-Encoding" then some (ascii "chunked")
    else lastField (lines.filterMap headerField) name

/-! ## Folding the lines -/

def stripCR (line : Bytes) : Bytes := if line.getLast? = some CR then line.dropLast else line

theorem compareEq_status (line : Bytes) :
    compareEq line 0 8 (ascii "Status: ") (zero_le_length _) = true ↔
      line.take 8 = ascii "Status: " := by
  rw [compareEq, beq_iff_eq, List.drop_zero]

theorem cgiHeader_status (uninitialised : Int) (response : HttpResponse) (line : Bytes) :
    ((cgiHeader uninitialised response line).statusCode,
        (cgiHeader uninitialised response line).statusMessage) =
      ((statusText line).map fun text => statusOf uninitialised (some text)).getD
        (response.statusCode, response.statusMessage) := by
  unfold cgiHeader statusText
  simp only [compareEq_status, substrFrom_eq]
  by_cases hline : line = []
  · rw [if_pos hline, hline]
    rfl
  · rw [if_neg hline]
    by_cases hstatus : line.take 8 = ascii "Status: "
    · rw [dif_pos hstatus, if_pos hstatus]
      rfl
    · rw [dif_neg hstatus, if_neg hstatus]
      split_ifs <;> rfl

theorem foldl_cgiHeader_status (uninitialised : Int) (lines : List Bytes)
    (response : HttpResponse) :
    ((lines.foldl (cgiHeader uninitialised) response).statusCode,
        (lines.foldl (cgiHeader uninitialised) response).statusMessage) =
      ((lines.filterMap statusText).getLast?.map fun text =>
        statusOf uninitialised (some text)).getD
        (response.statusCode, response.statusMessage) := by
  have hlast := foldl_last (fun r : HttpResponse => (r.statusCode, r.statusMessage))
    (f := cgiHeader uninitialised)
    (fun line => (statusText line).map fun text => statusOf uninitialised (some text))
    (fun b a => cgiHeader_status uninitialised b a) lines response
  rw [hlast, ← List.getLast?_map, List.map_filterMap]

theorem foldl_cgiHeader_headers (uninitialised : Int) (lines : List Bytes)
    (response : HttpResponse) :
    (lines.foldl (cgiHeader uninitialised) response).headers =
      (lines.filterMap headerField).foldl (fun m field => m.insert field.1 field.2)
        response.headers := by
  induction lines generalizing response with
  | nil => rfl
  | cons line lines ih =>
      rw [List.foldl_cons, ih, cgiHeader_headers, List.filterMap_cons]
      cases headerField line <;> rfl

theorem cgiResponse_takenFrom (uninitialised : Int) {headerBlock body : Bytes}
    {lines : List Bytes} (hlines : (getLines LF headerBlock).map stripCR = lines) :
    TakenFrom uninitialised lines body (cgiResponse uninitialised headerBlock body) := by
  have hfold (response : HttpResponse) :
      (getLines LF headerBlock).foldl (cgiLine uninitialised) response =
        lines.foldl (cgiHeader uninitialised) response := by
    rw [← hlines, List.foldl_map]
    rfl
  simp only [cgiResponse, hfold]
  constructor
  · rfl
  · have hstatus := foldl_cgiHeader_status uninitialised lines
      { HttpResponse.ofStatus .Ok with statusMessage := ascii "OK" }
    refine hstatus.trans ?_
    cases (lines.filterMap statusText).getLast? <;> rfl
  · intro name
    simp only [HttpResponse.setHeader, foldl_cgiHeader_headers]
    split_ifs with hname
    · rw [hname]
      exact AList.lookup_insert _
    · rw [AList.lookup_insert_ne hname, lookup_foldl_insert]
      simp [HttpResponse.ofStatus, lastField]

/-! ## The blank line -/

/-- Header lines as a program writes them. -/
structure CgiHead where
  lines : List Bytes
  lines_ne : lines ≠ []
  text : ∀ line ∈ lines, TextLine line

def CgiHead.output (h : CgiHead) (e : LineTerminator) (body : Bytes) : Bytes :=
  h.lines.flatMap (· ++ e.toBytes) ++ e.toBytes ++ body

theorem CgiHead.output_eq (h : CgiHead) (e : LineTerminator) (body : Bytes) :
    h.output e body = joinLines e h.lines ++ (e.toBytes ++ e.toBytes ++ body) := by
  rw [output, flatMap_eq_joinLines e h.lines_ne]
  simp only [List.append_assoc]

theorem splitCgiOutput_crlf {output : Bytes} {i : Nat}
    (h : findSub (ascii "\r\n\r\n") output = some i) :
    splitCgiOutput output = some (output.take i, output.drop (i + 4)) := by
  unfold splitCgiOutput
  split
  · rename_i blPos hfound
    obtain rfl := Option.some.inj (hfound.symm.trans h)
    rfl
  · rename_i hnone
    rw [hnone] at h
    cases h

theorem splitCgiOutput_lf {output : Bytes} {i : Nat}
    (hnone : findSub (ascii "\r\n\r\n") output = none)
    (h : findSub (ascii "\n\n") output = some i) :
    splitCgiOutput output = some (output.take i, output.drop (i + 2)) := by
  unfold splitCgiOutput
  split
  · rename_i hfound
    rw [hnone] at hfound
    cases hfound
  · split
    · rename_i blPos hfound
      obtain rfl := Option.some.inj (hfound.symm.trans h)
      rfl
    · rename_i hnone'
      rw [hnone'] at h
      cases h

theorem stripCR_leftover {line : Bytes} (h : TextLine line) (e : LineTerminator) :
    stripCR (line ++ e.leftover) = line := by
  cases e with
  | lf =>
      rw [LineTerminator.leftover, List.append_nil, stripCR, if_neg]
      intro hlast
      exact h.noCR (List.mem_of_getLast? hlast)
  | crlf => simp [stripCR, LineTerminator.leftover]

theorem map_stripCR_openLines {e : LineTerminator} {lines : List Bytes}
    (h : ∀ line ∈ lines, TextLine line) : (openLines e lines).map stripCR = lines := by
  induction lines with
  | nil => rfl
  | cons line lines ih =>
      obtain ⟨hline, hrest⟩ := List.forall_mem_cons.1 h
      cases lines with
      | nil =>
          have hstrip := stripCR_leftover hline .lf
          rw [LineTerminator.leftover, List.append_nil] at hstrip
          simp [openLines, hstrip]
      | cons line' lines => rw [openLines, List.map_cons, stripCR_leftover hline, ih hrest]

/-- The header block of a head that is split off where it ends. -/
theorem takenFrom_joinLines (uninitialised : Int) (h : CgiHead) (e : LineTerminator)
    (body : Bytes) :
    TakenFrom uninitialised h.lines body
      (cgiResponse uninitialised (joinLines e h.lines) body) := by
  apply cgiResponse_takenFrom
  rw [getLines_joinLines e h.lines_ne h.text]
  exact map_stripCR_openLines h.text

theorem parseCgiOutput_of_split {uninitialised : Int} {output headerBlock body : Bytes}
    (h : splitCgiOutput output = some (headerBlock, body)) :
    parseCgiOutput uninitialised output = cgiResponse uninitialised headerBlock body := by
  rw [parseCgiOutput, h]

theorem splitCgiOutput_output_crlf (h : CgiHead) (body : Bytes) :
    splitCgiOutput (h.output .crlf body) = some (joinLines .crlf h.lines, body) := by
  have hfound := findSub_blankLine .crlf h.lines_ne h.text body
  rw [← h.output_eq] at hfound
  rw [splitCgiOutput_crlf hfound, h.output_eq, List.take_left, ← List.drop_drop, List.drop_left]
  rfl

theorem CgiHead.cr_notMem (h : CgiHead) : CR ∉ joinLines .lf h.lines ++ [LF, LF] := by
  rw [List.mem_append, not_or]
  constructor
  · exact notMem_joinLines (by decide) fun line hline => (h.text line hline).noCR
  · decide

theorem CgiHead.output_lf (h : CgiHead) (body : Bytes) :
    h.output .lf body = joinLines .lf h.lines ++ [LF, LF] ++ body := by
  rw [h.output_eq]
  exact (List.append_assoc (joinLines .lf h.lines) [LF, LF] body).symm

/-- Nothing in front of the body can be part of the other blank line. -/
theorem CgiHead.findSub_output_lf (h : CgiHead) (body : Bytes) :
    findSub (ascii "\r\n\r\n") (h.output .lf body) =
      (findSub (ascii "\r\n\r\n") body).map
        ((joinLines .lf h.lines ++ [LF, LF]).length + ·) := by
  rw [h.output_lf]
  exact findSub_skip h.cr_notMem body

theorem splitCgiOutput_output_lf (h : CgiHead) {body : Bytes}
    (hbody : ¬ ascii "\r\n\r\n" <:+: body) :
    splitCgiOutput (h.output .lf body) = some (joinLines .lf h.lines, body) := by
  have hnone : findSub (ascii "\r\n\r\n") (h.output .lf body) = none := by
    rw [h.findSub_output_lf, Option.map_eq_none_iff]
    exact findSub_eq_none_iff.2 hbody
  have hfound := findSub_blankLine .lf h.lines_ne h.text body
  rw [← h.output_eq] at hfound
  rw [splitCgiOutput_lf hnone hfound, h.output_eq, List.take_left, ← List.drop_drop,
    List.drop_left]
  rfl

/-- The blank line of the other kind is in the body, which is cut there. -/
theorem parseCgiOutput_body_lf (uninitialised : Int) (h : CgiHead) {body : Bytes}
    (hbody : ascii "\r\n\r\n" <:+: body) :
    (parseCgiOutput uninitialised (h.output .lf body)).body.length < body.length := by
  obtain ⟨i, hi⟩ : ∃ i, findSub (ascii "\r\n\r\n") body = some i := by
    rw [← Option.isSome_iff_exists, ← Option.ne_none_iff_isSome]
    exact fun hnone => findSub_eq_none_iff.1 hnone hbody
  have hfound : findSub (ascii "\r\n\r\n") (h.output .lf body) =
      some ((joinLines .lf h.lines ++ [LF, LF]).length + i) := by
    rw [h.findSub_output_lf, hi, Option.map_some]
  have hlen := findSub_lt hi
  rw [parseCgiOutput_of_split (splitCgiOutput_crlf hfound)]
  change ((h.output .lf body).drop _).length < body.length
  rw [h.output_lf, Nat.add_assoc, ← List.drop_drop, List.drop_left, List.length_drop]
  change i + 4 ≤ body.length at hlen
  omega

/-- The output is split at its first blank line, unless that is one of line feeds and the body
has a blank line of the other kind. -/
theorem parseCgiOutput_takenFrom_iff (uninitialised : Int) (h : CgiHead) (e : LineTerminator)
    (body : Bytes) :
    TakenFrom uninitialised h.lines body (parseCgiOutput uninitialised (h.output e body)) ↔
      (e = .lf → ¬ ascii "\r\n\r\n" <:+: body) := by
  cases e with
  | crlf =>
      rw [parseCgiOutput_of_split (splitCgiOutput_output_crlf h body)]
      apply iff_of_true (takenFrom_joinLines uninitialised h .crlf body)
      intro heq
      cases heq
  | lf =>
      constructor
      · intro htaken _ hbody
        have hlen := parseCgiOutput_body_lf uninitialised h hbody
        rw [htaken.body_eq] at hlen
        omega
      · intro hbody
        rw [parseCgiOutput_of_split (splitCgiOutput_output_lf h (hbody rfl))]
        exact takenFrom_joinLines uninitialised h .lf body

/-- One header line, and a text body that has been written with the other line ends. -/
def plainHead : CgiHead where
  lines := [ascii "Content-Type: text/plain"]
  lines_ne := by simp
  text := by simpa using ⟨by decide, by decide, by decide⟩

theorem parseCgiOutput_splits_body :
    plainHead.output .lf (ascii "one\r\n\r\ntwo") =
        ascii "Content-Type: text/plain\n\none\r\n\r\ntwo" ∧
      (parseCgiOutput 0 (plainHead.output .lf (ascii "one\r\n\r\ntwo"))).body = ascii "two" ∧
      ¬ TakenFrom 0 plainHead.lines (ascii "one\r\n\r\ntwo")
        (parseCgiOutput 0 (plainHead.output .lf (ascii "one\r\n\r\ntwo"))) := by
  refine ⟨by decide, by decide, ?_⟩
  intro htaken
  have hbody := htaken.body_eq
  revert hbody
  decide

/-! ## The status -/

/-- The text starts with a number that a status line can carry. -/
def GivesCode (text : Bytes) : Prop :=
  ∃ m : Numeral, m.toBytes = text ∧ 100 ≤ m.signedValue ∧ m.signedValue ≤ 599

def statusTexts (headerBlock : Bytes) : List Bytes :=
  ((getLines LF headerBlock).map stripCR).filterMap statusText

/-- `int` as formatted extraction leaves it: an overflow is clipped. -/
def clipped (n : Int) : Int :=
  if n < -2 ^ 31 then -2 ^ 31 else if 2 ^ 31 ≤ n then 2 ^ 31 - 1 else n

def signedDigits (text : Bytes) : Int :=
  if (readDigits text).1 = true then -digitsValue (readDigits text).2
  else digitsValue (readDigits text).2

/-- What is left to do when the sign has been read. -/
theorem extracted_code (negative : Bool) (digits rest : Bytes) :
    (let n : Int := if negative then -digitsValue digits else digitsValue digits
      if digits = [] then ((0 : Int), ([] : Bytes))
      else if n < -2 ^ 31 then (-2 ^ 31, [])
      else if 2 ^ 31 ≤ n then (2 ^ 31 - 1, [])
      else (n, rest)).1 =
      if digits = [] then 0
      else clipped (if negative = true then -digitsValue digits else digitsValue digits) := by
  unfold clipped
  dsimp only
  split_ifs <;> rfl

theorem readDigits_plain {text : Bytes} (hminus : ∀ rest, text.dropWhile isSpace ≠ 45 :: rest)
    (hplus : ∀ rest, text.dropWhile isSpace ≠ 43 :: rest) :
    readDigits text = (false, (text.dropWhile isSpace).takeWhile isDigit) := by
  unfold readDigits
  split
  · rename_i heq
    exact absurd heq (hminus _)
  · rename_i heq
    exact absurd heq (hplus _)
  · rfl

theorem readStatus_code (uninitialised : Int) (text : Bytes) :
    (readStatus uninitialised text).1 =
      if text.dropWhile isSpace = [] then uninitialised
      else if (readDigits text).2 = [] then 0 else clipped (signedDigits text) := by
  by_cases hblank : text.dropWhile isSpace = []
  · simp [readStatus, hblank]
  · rw [if_neg hblank, signedDigits]
    by_cases hminus : ∃ rest, text.dropWhile isSpace = 45 :: rest
    · obtain ⟨rest, heq⟩ := hminus
      have hdigits : readDigits text = (true, rest.takeWhile isDigit) := by
        rw [readDigits, heq]
        rfl
      rw [readStatus, heq, hdigits]
      exact extracted_code true _ _
    · by_cases hplus : ∃ rest, text.dropWhile isSpace = 43 :: rest
      · obtain ⟨rest, heq⟩ := hplus
        have hdigits : readDigits text = (false, rest.takeWhile isDigit) := by
          rw [readDigits, heq]
          rfl
        rw [readStatus, heq, hdigits]
        exact extracted_code false _ _
      · push Not at hminus hplus
        rw [readDigits_plain hminus hplus]
        unfold readStatus
        generalize text.dropWhile isSpace = t at hblank hminus hplus
        dsimp only
        rw [if_neg hblank]
        split
        · rename_i rest
          exact absurd rfl (hminus rest)
        · rename_i rest
          exact absurd rfl (hplus rest)
        · exact extracted_code false _ _

theorem readStatus_of_nonblank {text : Bytes} (h : text.dropWhile isSpace ≠ [])
    (uninitialised uninitialised' : Int) :
    readStatus uninitialised text = readStatus uninitialised' text := by
  simp [readStatus, h]

theorem readStatus_subset (uninitialised : Int) (text : Bytes) :
    (readStatus uninitialised text).2 ⊆ text := by
  have hspace : text.dropWhile isSpace ⊆ text := (List.dropWhile_sublist _).subset
  unfold readStatus
  dsimp only
  split_ifs <;>
    first
    | exact List.nil_subset _
    | refine List.Subset.trans (List.dropWhile_sublist _).subset ?_
  -- the rest of the line is given out only behind a number, signed or not
  all_goals
    split
    · rename_i rest heq
      exact List.Subset.trans (List.subset_cons_self _ _) (heq ▸ hspace)
    · rename_i rest heq
      exact List.Subset.trans (List.subset_cons_self _ _) (heq ▸ hspace)
    · exact hspace

theorem signedDigits_toBytes (m : Numeral) : signedDigits m.toBytes = m.signedValue := by
  unfold signedDigits Numeral.signedValue
  simp only [Numeral.readDigits_toBytes, decide_eq_true_eq]

/-- A number that fits is extracted whatever the variable has held. -/
theorem readStatus_of_numeral (uninitialised : Int) (m : Numeral) (hlo : 100 ≤ m.signedValue)
    (hhi : m.signedValue ≤ 599) : (readStatus uninitialised m.toBytes).1 = m.signedValue := by
  have hdigits : (readDigits m.toBytes).2 ≠ [] := by
    rw [Numeral.readDigits_toBytes]
    exact m.digits_ne_nil
  rw [readStatus_code, if_neg m.dropWhile_ne_nil, if_neg hdigits, signedDigits_toBytes, clipped,
    if_neg (by omega), if_neg (by omega)]

/-- The code is a number of the range for two contents of the variable. -/
theorem givesCode_of_readStatus {text : Bytes} {code : Int}
    (hcode : ∀ uninitialised, (readStatus uninitialised text).1 = code) (hlo : 100 ≤ code)
    (hhi : code ≤ 599) : GivesCode text := by
  have hread := hcode 0
  rw [readStatus_code] at hread
  split_ifs at hread with hblank hdigits
  · omega
  · omega
  · obtain ⟨m, hm⟩ := Numeral.exists_of_readDigits hdigits
    rw [← hm, signedDigits_toBytes, clipped] at hread
    refine ⟨m, hm, ?_⟩
    split_ifs at hread <;> omega

/-- The status line starts with a code of three digits that no memory has a part in, and with
an error code if the last status that the program gives is none. -/
def StatusSound (output headerBlock : Bytes) : Prop :=
  ∃ digits, digits.length = 3 ∧ digits.all isDigit = true ∧ 100 ≤ digitsValue digits ∧
    digitsValue digits ≤ 599 ∧
    (∀ uninitialised it, ascii "HTTP/1.1 " ++ digits ++ [SP] <+:
      (parseCgiOutput uninitialised output).headersToBytes it) ∧
    ∀ text, (statusTexts headerBlock).getLast? = some text → ¬ GivesCode text →
      400 ≤ digitsValue digits

theorem statusCode_parseCgiOutput (uninitialised : Int) {output headerBlock body : Bytes}
    (hsplit : splitCgiOutput output = some (headerBlock, body)) :
    (parseCgiOutput uninitialised output).statusCode =
      (statusOf uninitialised (statusTexts headerBlock).getLast?).1 := by
  have htaken : TakenFrom uninitialised ((getLines LF headerBlock).map stripCR) body
      (cgiResponse uninitialised headerBlock body) := cgiResponse_takenFrom uninitialised rfl
  rw [parseCgiOutput_of_split hsplit]
  exact congrArg Prod.fst htaken.status_eq

theorem headersToBytes_eq (it : HttpResponse.Iteration) (r : HttpResponse) :
    ∃ rest, r.headersToBytes it =
      ascii "HTTP/1.1 " ++ (HttpResponse.intToDecimal r.statusCode.value ++ SP :: rest) := by
  refine ⟨r.statusMessage ++ (HttpResponse.crlf ++
    ((it.order r.headers).flatMap HttpResponse.headerToBytes ++ HttpResponse.crlf)), ?_⟩
  simp only [HttpResponse.headersToBytes, List.append_assoc, List.cons_append, List.nil_append]

/-- What the status line starts with determines the code. -/
theorem code_of_prefix {digits : Bytes} (hdigits : digits.all isDigit = true)
    {it : HttpResponse.Iteration} {r : HttpResponse}
    (h : ascii "HTTP/1.1 " ++ digits ++ [SP] <+: r.headersToBytes it) :
    r.statusCode.value = digitsValue digits := by
  obtain ⟨rest, hhead⟩ := headersToBytes_eq it r
  obtain ⟨tail, htail⟩ := h
  rw [hhead, List.append_assoc, List.append_assoc, List.append_cancel_left_eq] at htail
  obtain ⟨hcode, -⟩ := append_cons_inj (not_mem_of_all_digits (by decide) hdigits)
    (not_mem_intToDecimal (by decide) (by decide) _) htail
  rw [HttpResponse.intToDecimal] at hcode
  split_ifs at hcode with hneg
  · rw [hcode] at hdigits
    cases List.all_eq_true.1 hdigits (byteOf '-') (List.mem_append_left _ (by decide))
  · rw [hcode, digitsValue_toDecimal]
    omega

theorem prefix_headersToBytes (it : HttpResponse.Iteration) {r : HttpResponse} {code : Nat}
    (hcode : r.statusCode.value = code) :
    ascii "HTTP/1.1 " ++ toDecimal code ++ [SP] <+: r.headersToBytes it := by
  obtain ⟨rest, hhead⟩ := headersToBytes_eq it r
  refine ⟨rest, ?_⟩
  rw [hhead, hcode, HttpResponse.intToDecimal, if_neg (by omega), Int.natAbs_natCast]
  simp

theorem statusSound_of_code {output headerBlock : Bytes} {code : Nat} (hlo : 100 ≤ code)
    (hhi : code ≤ 599)
    (hcode : ∀ uninitialised, (parseCgiOutput uninitialised output).statusCode.value = code)
    (hgives : ∀ text, (statusTexts headerBlock).getLast? = some text → GivesCode text) :
    StatusSound output headerBlock := by
  refine ⟨toDecimal code, length_toDecimal hlo (by omega), all_isDigit_toDecimal code, ?_, ?_, ?_, ?_⟩
  · rwa [digitsValue_toDecimal]
  · rwa [digitsValue_toDecimal]
  · intro uninitialised it
    exact prefix_headersToBytes it (hcode uninitialised)
  · intro text htext hnot
    exact absurd (hgives text htext) hnot

/-- The status line is sound when the last status that the program gives is a number of the
range, or when it gives none. -/
theorem statusSound_iff {output headerBlock body : Bytes}
    (hsplit : splitCgiOutput output = some (headerBlock, body)) :
    StatusSound output headerBlock ↔
      ∀ text, (statusTexts headerBlock).getLast? = some text → GivesCode text := by
  have hstatus (uninitialised : Int) := statusCode_parseCgiOutput uninitialised hsplit
  constructor
  · rintro ⟨digits, -, hdigits, hlo, hhi, hstart, -⟩ text htext
    have hcode (uninitialised : Int) :
        (readStatus uninitialised text).1 = digitsValue digits := by
      have hvalue := code_of_prefix hdigits (hstart uninitialised .inOrder)
      rw [hstatus, htext] at hvalue
      exact hvalue
    exact givesCode_of_readStatus hcode (by omega) (by omega)
  · intro hgives
    cases hlast : (statusTexts headerBlock).getLast? with
    | none =>
        apply statusSound_of_code (by decide : 100 ≤ 200) (by decide)
        · intro uninitialised
          rw [hstatus, hlast]
          rfl
        · exact hgives
    | some text =>
        obtain ⟨m, rfl, hlo, hhi⟩ := hgives text hlast
        apply statusSound_of_code (by omega : 100 ≤ m.signedValue.toNat) (by omega)
        · intro uninitialised
          rw [hstatus, hlast]
          change (readStatus uninitialised m.toBytes).1 = _
          rw [readStatus_of_numeral _ m hlo hhi]
          omega
        · exact hgives

theorem statusSound_iff_created :
    StatusSound (ascii "Status: 201 Created\n\n") (ascii "Status: 201 Created") ↔
      ∀ text, (statusTexts (ascii "Status: 201 Created")).getLast? = some text →
        GivesCode text :=
  statusSound_iff (by decide : splitCgiOutput (ascii "Status: 201 Created\n\n") =
    some (ascii "Status: 201 Created", []))

theorem not_statusSound_of_code {output headerBlock : Bytes} {code : Int}
    (hcode : (parseCgiOutput 0 output).statusCode.value = code) (hlow : code < 100) :
    ¬ StatusSound output headerBlock := by
  rintro ⟨digits, -, hdigits, hlo, -, hstart, -⟩
  have hvalue := code_of_prefix hdigits (hstart 0 .inOrder)
  omega

/-- A word instead of a code, a code of two digits, and nothing at all. -/
theorem parseCgiOutput_status_unsound :
    ¬ StatusSound (ascii "Status: OK\n\n") (ascii "Status: OK") ∧
      ¬ StatusSound (ascii "Status: 42\n\n") (ascii "Status: 42") ∧
      ¬ StatusSound (ascii "Status: \n\n") (ascii "Status: ") ∧
      (parseCgiOutput 200 (ascii "Status: \n\n")).statusCode = .Ok ∧
      (parseCgiOutput 404 (ascii "Status: \n\n")).statusCode = .NotFound := by
  have hword : (parseCgiOutput 0 (ascii "Status: OK\n\n")).statusCode.value = 0 := by decide
  have hshort : (parseCgiOutput 0 (ascii "Status: 42\n\n")).statusCode.value = 42 := by decide
  have hblank : (parseCgiOutput 0 (ascii "Status: \n\n")).statusCode.value = 0 := by decide
  exact ⟨not_statusSound_of_code hword (by decide), not_statusSound_of_code hshort (by decide),
    not_statusSound_of_code hblank (by decide), by decide, by decide⟩

end CppHttpd
