import CppHttpd.Http.Core.RequestWire

/-!
# Parsing undoes writing

A list of requests is written back to back, every line ended as its author
likes, and fed to a new parser.  The driver gets the same list back.
-/

namespace CppHttpd

open CppHttpd.Foundation

/-! ## Written requests -/

/-- A header as a client writes it: `name:`, blanks, `value`. -/
structure WrittenHeader where
  name : Bytes
  padding : Bytes
  value : Bytes
  lineEnd : LineEnd
  name_ne : name ≠ []
  name_noColon : COLON ∉ name
  name_noSpace : ∀ c ∈ name, isSpace c = false
  padding_blank : ∀ c ∈ padding, c = SP ∨ c = TAB
  value_noLF : LF ∉ value
  value_head : ∀ c ∈ value.head?, c ≠ SP ∧ c ≠ TAB ∧ c ≠ CR
  value_last : ∀ c ∈ value.getLast?, c ≠ SP ∧ c ≠ TAB ∧ c ≠ CR

namespace WrittenHeader

def line (h : WrittenHeader) : Bytes := h.name ++ COLON :: (h.padding ++ h.value)

theorem line_clean (h : WrittenHeader) : CleanLine h.line := by
  have hname : LF ∉ h.name := fun hmem => by
    have := h.name_noSpace LF hmem
    revert this
    decide
  have hpad : LF ∉ h.padding := fun hmem => by
    have := h.padding_blank LF hmem
    revert this
    decide
  refine ⟨?_, fun hlast => ?_⟩
  · simp [line, hname, hpad, h.value_noLF, (by decide : LF ≠ COLON)]
  · rw [line, List.getLast?_append_of_ne_nil _ (by simp), ← List.cons_append] at hlast
    by_cases hvalue : h.value = []
    · -- the last byte is the colon or a blank of the padding
      rw [hvalue, List.append_nil] at hlast
      have hmem := List.mem_of_getLast? hlast
      rcases List.mem_cons.mp hmem with hcolon | hblank
      · revert hcolon
        decide
      · have := h.padding_blank CR hblank
        revert this
        decide
    · rw [List.getLast?_append_of_ne_nil _ hvalue] at hlast
      exact (h.value_last CR hlast).2.2 rfl

private theorem trim_name (h : WrittenHeader) : trim h.name = h.name := by
  have hblank : ∀ c ∈ h.name, (ascii " \t\r\n").contains c = false := by
    intro c hc
    have hspace := h.name_noSpace c hc
    by_contra hne
    have hmem : c ∈ ascii " \t\r\n" := by simpa using hne
    have hall : ∀ d ∈ ascii " \t\r\n", isSpace d = true := List.all_eq_true.1 (by decide)
    rw [hall c hmem] at hspace
    cases hspace
  have htrim : trim ([] ++ h.name) = h.name := trim_append
    (by simp) (fun c hc => hblank c (List.mem_of_head? hc))
    (fun c hc => hblank c (List.mem_of_getLast? hc))
  simpa using htrim

private theorem trim_value (h : WrittenHeader) : trim (h.padding ++ h.value) = h.value := by
  have hset : ascii " \t\r\n" = [SP, TAB, CR, LF] := by decide
  have hkeep : ∀ c ∈ h.value, c ≠ SP ∧ c ≠ TAB ∧ c ≠ CR →
      (ascii " \t\r\n").contains c = false := by
    rintro c hmem ⟨hsp, htab, hcr⟩
    have hlf : c ≠ LF := fun heq => h.value_noLF (heq ▸ hmem)
    rw [hset]
    simp [hsp, htab, hcr, hlf]
  refine trim_append (fun c hc => ?_)
    (fun c hc => hkeep c (List.mem_of_head? hc) (h.value_head c hc))
    (fun c hc => hkeep c (List.mem_of_getLast? hc) (h.value_last c hc))
  rcases h.padding_blank c hc with rfl | rfl <;> decide

theorem parseHeaderLine_line (h : WrittenHeader) :
    parseHeaderLine h.line true = (toLower h.name, h.value) := by
  have hcolon : find h.line COLON 0 = some h.name.length :=
    find_append_cons h.name_noColon _
  have hpos : h.name.length ≠ 0 := by simpa using h.name_ne
  have hname : h.line.take h.name.length = h.name := by simp [line]
  have hvalue : h.line.drop (h.name.length + 1) = h.padding ++ h.value := by
    simp [line, List.drop_append]
  unfold parseHeaderLine
  split
  · rename_i heq
    rw [hcolon] at heq
    cases heq
  · rename_i colon heq
    rw [hcolon] at heq
    cases heq
    simp only [substr_eq, substrFrom_eq, List.drop_zero, hname, hvalue, h.trim_name,
      h.trim_value, if_neg hpos, if_neg h.name_ne, if_true]

def toHeaderLine (h : WrittenHeader) : HeaderLine where
  line := h.line
  lineEnd := h.lineEnd
  clean := h.line_clean
  named := by
    rw [h.parseHeaderLine_line]
    simpa [toLower] using h.name_ne

@[simp] theorem toHeaderLine_name (h : WrittenHeader) :
    h.toHeaderLine.name = toLower h.name := by
  simp [HeaderLine.name, toHeaderLine, h.parseHeaderLine_line]

@[simp] theorem toHeaderLine_value (h : WrittenHeader) :
    h.toHeaderLine.value = h.value := by
  simp [HeaderLine.value, toHeaderLine, h.parseHeaderLine_line]

end WrittenHeader

structure WrittenRequest where
  method : Method
  uri : Bytes
  lineEnd : LineEnd
  headers : List WrittenHeader
  blankEnd : LineEnd
  body : Bytes
  uri_ne : uri ≠ []
  uri_noSP : SP ∉ uri
  uri_noLF : LF ∉ uri
  names_distinct : (headers.map fun h => toLower h.name).Nodup
  body_le : body.length ≤ MAX_BODY_SIZE
  post_length : method = .POST → ∃ h ∈ headers,
    toLower h.name = ascii "content-length" ∧ decimalValue h.value = some body.length
  other_body : method ≠ .POST → body = [] ∧
    ∀ h ∈ headers, toLower h.name ≠ ascii "content-length"

namespace WrittenRequest

def head (r : WrittenRequest) : RequestHead where
  method := r.method
  uri := r.uri
  version := ascii "HTTP/1.1"
  lineEnd := r.lineEnd
  headers := r.headers.map WrittenHeader.toHeaderLine
  blankEnd := r.blankEnd
  uri_ne := r.uri_ne
  uri_noSP := r.uri_noSP
  uri_noLF := r.uri_noLF
  version_ne := by decide
  version_noSP := by decide
  version_clean := ⟨by decide, by decide⟩

def bytes (r : WrittenRequest) : Bytes := r.head.bytes ++ r.body

/-- The header map with exactly the written headers, their names in lower case. -/
def headerMap (r : WrittenRequest) : HeaderMap where
  entries := (r.headers.map fun h => ⟨toLower h.name, h.value⟩).reverse
  nodupKeys := by
    have hkeys : ((r.headers.map fun h =>
        (⟨toLower h.name, h.value⟩ : Sigma fun _ : Bytes => Bytes)).reverse).keys =
        (r.headers.map fun h => toLower h.name).reverse := by
      simp [List.keys, List.map_reverse, Function.comp_def]
    rw [List.NodupKeys, hkeys]
    exact List.nodup_reverse.mpr r.names_distinct

def parsed (r : WrittenRequest) : HttpRequest where
  method := r.method
  methodStr := r.method.toBytes
  uri := r.uri
  headers := r.headerMap
  contentLength := RequestHead.recordedLength r.body.length
  buffer := r.body

/-! ## What the parser stores -/

theorem storeAll_head (r : WrittenRequest) :
    RequestHead.storeAll ∅ r.head.headers = r.headerMap := by
  apply AList.ext
  have hentries := entries_foldl_insert (fun h => toLower h.name) WrittenHeader.value r.headers ∅
    (by simp) r.names_distinct
  simpa [head, headerMap, RequestHead.storeAll, List.foldl_map] using hentries

theorem deliver_head (r : WrittenRequest) :
    r.head.deliver r.body.length r.body = r.parsed := by
  have hmap := storeAll_head r
  simp only [head] at hmap
  simp [RequestHead.deliver, RequestHead.request, RequestHead.lineRequest, parsed,
    head, hmap]

private theorem filter_name_singleton {headers : List WrittenHeader} {h : WrittenHeader}
    (hmem : h ∈ headers) (hdistinct : (headers.map fun h => toLower h.name).Nodup) :
    headers.filter (fun g => toLower g.name = toLower h.name) = [h] := by
  induction headers with
  | nil => simp at hmem
  | cons g headers ih =>
      rw [List.map_cons, List.nodup_cons] at hdistinct
      rcases List.mem_cons.mp hmem with rfl | htail
      · have hnone : headers.filter (fun g => toLower g.name = toLower h.name) = [] := by
          rw [List.filter_eq_nil_iff]
          intro g hg heq
          exact hdistinct.1 (List.mem_map.mpr ⟨g, hg, by simpa using heq⟩)
        rw [List.filter_cons_of_pos (by simp), hnone]
      · have hne : toLower g.name ≠ toLower h.name := fun heq =>
          hdistinct.1 (heq ▸ List.mem_map_of_mem htail)
        rw [List.filter_cons_of_neg (by simpa using hne), ih htail hdistinct.2]

theorem post_declares {r : WrittenRequest} (hpost : r.method = .POST) :
    RequestParser.DeclaresLength r.head r.body.length := by
  obtain ⟨h, hmem, hname, hvalue⟩ := r.post_length hpost
  refine ⟨⟨h.toHeaderLine, ?_, by simpa using hvalue⟩, r.body_le⟩
  have hone := filter_name_singleton hmem r.names_distinct
  rw [hname] at hone
  simp [head, List.filter_map, Function.comp_def, hone]

/-! ## The round trip -/

theorem feed_post {r : WrittenRequest} (hpost : r.method = .POST) (rest : Bytes) :
    (RequestParser.feed {} (r.bytes ++ rest)) =
      { buffer := rest, state := .done, request := r.parsed } := by
  rw [bytes, List.append_assoc,
    RequestParser.feed_declared_post (post_declares hpost) hpost rfl, deliver_head]

theorem feed_other {r : WrittenRequest} (hother : r.method ≠ .POST) (rest : Bytes) :
    (RequestParser.feed {} (r.bytes ++ rest)) =
      { buffer := rest, state := .done, request := r.parsed } := by
  obtain ⟨hbody, hnames⟩ := r.other_body hother
  have hlookup : r.head.request.headers.lookup (ascii "content-length") = none := by
    have hfilter : r.head.headers.filter (·.name = ascii "content-length") = [] := by
      rw [List.filter_eq_nil_iff]
      simp only [head, List.mem_map, forall_exists_index, and_imp]
      rintro l h hh rfl
      simpa using hnames h hh
    simp [RequestHead.request, RequestParser.lookup_storeAll, hfilter]
  have hlength : RequestParser.endHeaders
        { buffer := rest, state := .headers, request := r.head.request } =
      RequestParser.acceptLength
        { buffer := rest, state := .headers, request := r.head.request } 0 := by
    unfold RequestParser.endHeaders
    rw [hlookup]
  have hblank := RequestParser.steps_blank r.blankEnd rest hlength (Nat.zero_le _)
  have hall := (RequestParser.steps_head r.head rest).trans hblank
  rw [if_neg (by simp)] at hall
  rw [bytes, hbody, List.append_nil, RequestParser.feed_fresh]
  have hparsed : r.parsed = { r.head.request with
      contentLength := RequestHead.recordedLength 0 } := by
    rw [← deliver_head, hbody]
    rfl
  rw [hparsed]
  exact RequestParser.advance_eq_of_steps hall (.inl rfl)

theorem feed_bytes (r : WrittenRequest) (rest : Bytes) :
    RequestParser.feed {} (r.bytes ++ rest) =
      { buffer := rest, state := .done, request := r.parsed } := by
  by_cases hpost : r.method = .POST
  · exact feed_post hpost rest
  · exact feed_other hpost rest

end WrittenRequest

namespace RequestParser

private theorem drain_written (rs : List WrittenRequest) :
    consumer.drain { buffer := rs.flatMap WrittenRequest.bytes } =
      (rs.map WrittenRequest.parsed, {}) := by
  induction rs with
  | nil => exact Consumer.drain_of_none consume_fresh
  | cons r rs ih =>
      have hfeed := r.feed_bytes (rs.flatMap WrittenRequest.bytes)
      rw [feed_fresh] at hfeed
      rw [List.flatMap_cons, ← drain_advance, hfeed,
        Consumer.drain_of_some (M := consumer) (consume_of_done rfl)]
      rw [restart]
      dsimp only
      rw [ih]
      rfl

/-- Writing requests back to back and driving a new parser returns them. -/
theorem drive_written (rs : List WrittenRequest) :
    drive {} (rs.flatMap WrittenRequest.bytes) = (rs.map WrittenRequest.parsed, {}) := by
  rw [drive_eq_feed (by decide), Consumer.feed, if_neg (by decide), consumer_append]
  exact drain_written rs

/-- A body that looks like a request, behind lines ended in both ways. -/
theorem drive_written_post_get : ∃ post get : WrittenRequest,
    post.bytes = ascii "POST /a HTTP/1.1\nContent-Length: 18\r\nX:\n\nGET /b HTTP/1.1\n\r\n" ∧
    get.bytes = ascii "GET /c HTTP/1.1\r\nHost:\tlocalhost\r\n\r\n" ∧
    drive {} (post.bytes ++ get.bytes) = ([post.parsed, get.parsed], {}) := by
  let length : WrittenHeader :=
    { name := ascii "Content-Length", padding := [SP], value := ascii "18"
      lineEnd := .crlf, name_ne := by decide, name_noColon := by decide
      name_noSpace := List.forall_iff_forall_mem.1 (by decide)
      padding_blank := by simp, value_noLF := by decide
      value_head := by rintro c ⟨⟩; decide
      value_last := by rintro c ⟨⟩; decide }
  let empty : WrittenHeader :=
    { name := ascii "X", padding := [], value := []
      lineEnd := .lf, name_ne := by decide, name_noColon := by decide
      name_noSpace := List.forall_iff_forall_mem.1 (by decide)
      padding_blank := by simp, value_noLF := by decide
      value_head := by rintro c ⟨⟩
      value_last := by rintro c ⟨⟩ }
  let host : WrittenHeader :=
    { name := ascii "Host", padding := [TAB], value := ascii "localhost"
      lineEnd := .crlf, name_ne := by decide, name_noColon := by decide
      name_noSpace := List.forall_iff_forall_mem.1 (by decide)
      padding_blank := by simp, value_noLF := by decide
      value_head := by rintro c ⟨⟩; decide
      value_last := by rintro c ⟨⟩; decide }
  let post : WrittenRequest :=
    { method := .POST, uri := ascii "/a", lineEnd := .lf, headers := [length, empty]
      blankEnd := .lf, body := ascii "GET /b HTTP/1.1\n\r\n"
      uri_ne := by decide, uri_noSP := by decide, uri_noLF := by decide
      names_distinct := by decide, body_le := by decide
      post_length := fun _ => ⟨length, by simp, by decide, by decide⟩
      other_body := fun hne => absurd rfl hne }
  let get : WrittenRequest :=
    { method := .GET, uri := ascii "/c", lineEnd := .crlf, headers := [host]
      blankEnd := .crlf, body := []
      uri_ne := by decide, uri_noSP := by decide, uri_noLF := by decide
      names_distinct := by decide, body_le := by decide
      post_length := fun hpost => by cases hpost
      other_body := fun _ => ⟨rfl, by decide⟩ }
  refine ⟨post, get, by decide, by decide, ?_⟩
  have hdrive := drive_written [post, get]
  rw [List.flatMap_cons, List.flatMap_cons, List.flatMap_nil, List.append_nil] at hdrive
  exact hdrive

end RequestParser
end CppHttpd
