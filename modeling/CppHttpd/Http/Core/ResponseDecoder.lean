import CppHttpd.Foundation.Numerals
import CppHttpd.Http.Core.HttpResponse
import CppHttpd.Http.Core.RequestHandlerUtils

/-!
# Reading responses back

A client reads a status line, header lines up to an empty one, and then a body:
in chunks if the response says so, and up to the end of the stream otherwise.
Whatever order a header map is written in, the response read is the one that
was serialised.
-/

namespace CppHttpd

open CppHttpd.Foundation

/-! ## Hexadecimal numbers -/

def hexDigitValue (c : Byte) : Option Nat :=
  if 48 ≤ c ∧ c ≤ 57 then some (c.toNat - 48)
  else if 65 ≤ c ∧ c ≤ 70 then some (c.toNat - 55)
  else if 97 ≤ c ∧ c ≤ 102 then some (c.toNat - 87)
  else none

def hexValueFrom (acc : Nat) : Bytes → Option Nat
  | [] => some acc
  | c :: s => (hexDigitValue c).bind fun digit => hexValueFrom (16 * acc + digit) s

def hexValue (s : Bytes) : Option Nat := if s = [] then none else hexValueFrom 0 s

theorem hexValueFrom_append (acc : Nat) (s t : Bytes) :
    hexValueFrom acc (s ++ t) = (hexValueFrom acc s).bind fun acc => hexValueFrom acc t := by
  induction s generalizing acc with
  | nil => rfl
  | cons c s ih =>
      rw [List.cons_append, hexValueFrom, hexValueFrom]
      cases hexDigitValue c with
      | none => rfl
      | some digit => exact ih _

theorem hexDigitValue_digitChar (d : Fin 16) :
    hexDigitValue (byteOf (Nat.digitChar d)) = some d.val := by
  revert d
  decide

theorem hexValueFrom_toHex (n : Nat) : hexValueFrom 0 (HttpResponse.toHex n) = some n := by
  unfold HttpResponse.toHex
  induction n using Nat.strong_induction_on with
  | h n ih =>
      rw [Nat.toDigits_eq_if (by decide)]
      split_ifs with hlt
      · simpa [hexValueFrom] using hexDigitValue_digitChar ⟨n, hlt⟩
      · have hmod : n % 16 < 16 := Nat.mod_lt n (by decide)
        have hdigit := hexDigitValue_digitChar ⟨n % 16, hmod⟩
        rw [List.map_append, hexValueFrom_append, ih (n / 16) (by omega)]
        simp only [List.map_cons, List.map_nil, hexValueFrom, Option.bind_some, hdigit]
        congr 1
        omega

theorem hexValue_toHex (n : Nat) : hexValue (HttpResponse.toHex n) = some n := by
  have hne : HttpResponse.toHex n ≠ [] := by
    simp [HttpResponse.toHex, Nat.toDigits_ne_nil]
  rw [hexValue, if_neg hne, hexValueFrom_toHex]

theorem hexDigitValue_of_mem {s : Bytes} {acc n : Nat} (h : hexValueFrom acc s = some n)
    {c : Byte} (hmem : c ∈ s) : hexDigitValue c ≠ none := by
  induction s generalizing acc with
  | nil => cases hmem
  | cons d s ih =>
      obtain ⟨digit, hdigit, hrest⟩ := Option.bind_eq_some_iff.1 h
      rcases List.mem_cons.1 hmem with rfl | hmem
      · simp [hdigit]
      · exact ih hrest hmem

theorem not_mem_toHex {c : Byte} (hc : hexDigitValue c = none) (n : Nat) :
    c ∉ HttpResponse.toHex n := fun hmem =>
  hexDigitValue_of_mem (hexValueFrom_toHex n) hmem hc

/-! ## The decoder -/

structure DecodedResponse where
  status : Nat
  message : Bytes
  headers : HeaderMap
  body : Bytes

/-- A line, and what follows the CRLF behind it. -/
def takeLine (s : Bytes) : Option (Bytes × Bytes) :=
  (findSub HttpResponse.crlf s).map fun i => (s.take i, s.drop (i + 2))

/-- A version, a status of three digits and a message. -/
def decodeStatusLine (line : Bytes) : Option (Nat × Bytes) :=
  if line.take 9 = ascii "HTTP/1.1 " ∧ (line.drop 12).head? = some SP then
    (decimalValue ((line.drop 9).take 3)).map fun status => (status, line.drop 13)
  else none

def decodeHeader (line : Bytes) : Option (Bytes × Bytes) :=
  match find line COLON 0 with
  | none => none
  | some colon =>
      if colon = 0 then none
      else some (line.take colon, trim (line.drop (colon + 1)) (ascii " \t"))

/-- The header lines up to the empty one; there are no more of them than `fuel`. -/
def decodeHeaders : Nat → HeaderMap → Bytes → Option (HeaderMap × Bytes)
  | 0, _, _ => none
  | fuel + 1, headers, s => do
      let (line, rest) ← takeLine s
      if line = [] then some (headers, rest)
      else
        let (name, value) ← decodeHeader line
        decodeHeaders fuel (headers.insert name value) rest

def skipTrailer : Nat → Bytes → Option Bytes
  | 0, _ => none
  | fuel + 1, s => do
      let (line, rest) ← takeLine s
      if line = [] then some rest else skipTrailer fuel rest

/-- Chunks up to the empty one, their extensions and the trailer being left out. -/
def decodeChunks : Nat → Bytes → Option (Bytes × Bytes)
  | 0, _ => none
  | fuel + 1, s => do
      let (line, rest) ← takeLine s
      let size ← hexValue (line.takeWhile (· ≠ SEMICOLON))
      if size = 0 then (skipTrailer fuel rest).map fun rest => ([], rest)
      else if rest.length < size ∨ (rest.drop size).take 2 ≠ HttpResponse.crlf then none
      else
        let (body, behind) ← decodeChunks fuel (rest.drop (size + 2))
        some (rest.take size ++ body, behind)

/-- Without chunks, the body goes on to the end of the stream. -/
def decodeBody (headers : HeaderMap) (s : Bytes) : Option (Bytes × Bytes) :=
  if headers.lookup (ascii "Transfer-Encoding") = some (ascii "chunked") then
    decodeChunks (s.length + 1) s
  else some (s, [])

/-- A response, and the bytes behind it. -/
def decodeResponse (s : Bytes) : Option (DecodedResponse × Bytes) := do
  let (line, rest) ← takeLine s
  let (status, message) ← decodeStatusLine line
  let (headers, rest) ← decodeHeaders (rest.length + 1) ∅ rest
  let (body, behind) ← decodeBody headers rest
  some ({ status, message, headers, body }, behind)

/-! ## Lines -/

theorem takeLine_append {line : Bytes} (hline : CR ∉ line) (rest : Bytes) :
    takeLine (line ++ HttpResponse.crlf ++ rest) = some (line, rest) := by
  have hfind : findSub HttpResponse.crlf (line ++ HttpResponse.crlf ++ rest) =
      some line.length := by
    induction line with
    | nil => simp [HttpResponse.crlf, findSub]
    | cons c line ih =>
        rw [List.mem_cons, not_or] at hline
        have hpattern : HttpResponse.crlf.isPrefixOf
            (c :: (line ++ HttpResponse.crlf ++ rest)) = false := by
          simp [HttpResponse.crlf, List.isPrefixOf, hline.1]
        rw [List.cons_append, List.cons_append, findSub, hpattern, ih hline.2]
        rfl
  rw [takeLine, hfind]
  simp [HttpResponse.crlf]

theorem decodeHeader_line {name value : Bytes} (hname : name ≠ []) (hcolon : COLON ∉ name)
    (hhead : ∀ c, value.head? = some c → (ascii " \t").contains c = false)
    (hlast : ∀ c, value.getLast? = some c → (ascii " \t").contains c = false) :
    decodeHeader (name ++ ascii ": " ++ value) = some (name, value) := by
  have hsep : ascii ": " = [COLON, SP] := by decide
  have hfind : find (name ++ ascii ": " ++ value) COLON 0 = some name.length := by
    rw [hsep, List.append_assoc]
    exact find_append_cons hcolon _
  have hpos : name.length ≠ 0 := by simpa using hname
  have htrim : trim ([SP] ++ value) (ascii " \t") = value :=
    trim_append (by simp [ascii, byteOf]) hhead hlast
  have hdrop : (name ++ ascii ": " ++ value).drop (name.length + 1) = [SP] ++ value := by
    rw [hsep, List.append_assoc, List.drop_append, List.drop_of_length_le (Nat.le_succ _)]
    simp
  rw [decodeHeader, hfind]
  simp only [hpos, if_false]
  rw [hdrop, htrim, List.append_assoc, List.take_left]

theorem decodeStatusLine_line {code : Bytes} (hlen : code.length = 3) (message : Bytes) :
    decodeStatusLine (ascii "HTTP/1.1 " ++ code ++ [SP] ++ message) =
      (decimalValue code).map fun status => (status, message) := by
  obtain ⟨a, b, c, rfl⟩ := List.length_eq_three.1 hlen
  rfl

/-! ## Responses that can be read back -/

structure Serialisable (r : HttpResponse) : Prop where
  status : 100 ≤ r.statusCode.value ∧ r.statusCode.value ≤ 999
  message : CR ∉ r.statusMessage ∧ LF ∉ r.statusMessage
  name : ∀ header ∈ r.headers.entries,
    header.1 ≠ [] ∧ COLON ∉ header.1 ∧ CR ∉ header.1 ∧ LF ∉ header.1
  value : ∀ header ∈ r.headers.entries, CR ∉ header.2 ∧ LF ∉ header.2
  value_head : ∀ header ∈ r.headers.entries, ∀ c, header.2.head? = some c → c ≠ SP ∧ c ≠ TAB
  value_last : ∀ header ∈ r.headers.entries, ∀ c, header.2.getLast? = some c →
    c ≠ SP ∧ c ≠ TAB

/-- A header that is read back from its line. -/
def ReadsBack (header : Sigma fun _ : Bytes => Bytes) : Prop :=
  header.1 ≠ [] ∧ CR ∉ header.1 ++ ascii ": " ++ header.2 ∧
    decodeHeader (header.1 ++ ascii ": " ++ header.2) = some (header.1, header.2)

theorem Serialisable.readsBack {r : HttpResponse} (h : Serialisable r)
    {header : Sigma fun _ : Bytes => Bytes} (hmem : header ∈ r.headers.entries) :
    ReadsBack header := by
  obtain ⟨hname, hcolon, hnameCR, -⟩ := h.name header hmem
  have hset : ascii " \t" = [SP, TAB] := by decide
  have hsep : CR ∉ ascii ": " := by decide
  refine ⟨hname, by simp [hnameCR, hsep, (h.value header hmem).1],
    decodeHeader_line hname hcolon (fun c hc => ?_) fun c hc => ?_⟩
  · rw [hset]
    simpa using h.value_head header hmem c hc
  · rw [hset]
    simpa using h.value_last header hmem c hc

theorem decodeHeaders_flatMap (headers : List (Sigma fun _ : Bytes => Bytes))
    (hread : ∀ header ∈ headers, ReadsBack header) {fuel : Nat} (hfuel : headers.length < fuel)
    (m : HeaderMap) (rest : Bytes) :
    decodeHeaders fuel m (headers.flatMap HttpResponse.headerToBytes ++ HttpResponse.crlf ++
        rest) =
      some (headers.foldl (fun m header => m.insert header.1 header.2) m, rest) := by
  induction headers generalizing fuel m with
  | nil =>
      obtain ⟨fuel, rfl⟩ := Nat.exists_eq_add_one.2 hfuel
      have hline := @takeLine_append [] (by simp) rest
      rw [List.nil_append] at hline
      rw [List.flatMap_nil, List.nil_append, decodeHeaders, hline]
      rfl
  | cons header headers ih =>
      obtain ⟨fuel, rfl⟩ := Nat.exists_eq_add_one.2 (Nat.zero_lt_of_lt hfuel)
      obtain ⟨hname, hclean, hdecode⟩ := hread header (by simp)
      have hline : header.1 ++ ascii ": " ++ header.2 ≠ [] := by simp [hname]
      have hrest := ih (fun other hmem => hread other (by simp [hmem]))
        (Nat.lt_of_succ_lt_succ hfuel) (m.insert header.1 header.2)
      rw [List.flatMap_cons, List.append_assoc, List.append_assoc, HttpResponse.headerToBytes,
        decodeHeaders, takeLine_append hclean]
      simp only [Option.bind_eq_bind, Option.bind_some, if_neg hline, hdecode]
      rw [← List.append_assoc, hrest]
      rfl

/-! ## Chunks -/

theorem decodeChunks_last (fuel : Nat) (rest : Bytes) :
    decodeChunks (fuel + 2) (ascii "0\r\n\r\n" ++ rest) = some ([], rest) := rfl

theorem decodeChunks_chunk {body : Bytes} (hbody : body ≠ []) (fuel : Nat) (rest : Bytes) :
    decodeChunks (fuel + 1) (HttpResponse.toHex body.length ++ HttpResponse.crlf ++ body ++
        HttpResponse.crlf ++ rest) =
      (decodeChunks fuel rest).map fun r => (body ++ r.1, r.2) := by
  have hsize : (HttpResponse.toHex body.length).takeWhile (· ≠ SEMICOLON) =
      HttpResponse.toHex body.length :=
    takeWhile_ne_eq_self (not_mem_toHex (by decide) _)
  have hline := takeLine_append (not_mem_toHex (c := CR) (by decide) body.length)
    (body ++ HttpResponse.crlf ++ rest)
  have hlen : body.length ≠ 0 := by simpa using hbody
  rw [decodeChunks]
  simp only [List.append_assoc] at hline ⊢
  rw [hline]
  simp only [Option.bind_eq_bind, Option.bind_some, hsize, hexValue_toHex, if_neg hlen]
  rw [if_neg (by simp [HttpResponse.crlf])]
  have hdrop : (body ++ (HttpResponse.crlf ++ rest)).drop (body.length + 2) = rest := by
    simp [HttpResponse.crlf, List.drop_append]
  rw [hdrop, List.take_left]
  cases decodeChunks fuel rest <;> rfl

theorem decodeChunks_body {r : HttpResponse}
    (hchunked : HttpResponse.isChunked r.headers = true) (fuel : Nat) :
    decodeChunks (fuel + 3) r.bodyToBytes = some (r.body, []) := by
  have hlast := decodeChunks_last fuel []
  rw [List.append_nil] at hlast
  rw [HttpResponse.bodyToBytes, if_pos hchunked]
  split_ifs with hbody
  · rw [decodeChunks_chunk hbody, hlast]
    simp
  · simp only [ne_eq, not_not] at hbody
    rw [hbody, List.nil_append]
    exact decodeChunks_last (fuel + 1) []

/-! ## The round trip -/

theorem length_le_flatMap (headers : List (Sigma fun _ : Bytes => Bytes)) :
    headers.length ≤ (headers.flatMap HttpResponse.headerToBytes).length := by
  induction headers with
  | nil => simp
  | cons header headers ih =>
      simp only [List.flatMap_cons, List.length_append, List.length_cons,
        HttpResponse.headerToBytes, HttpResponse.crlf]
      omega

/-- The header map that is read back has the entries of the one that was written. -/
theorem perm_foldl_order (it : HttpResponse.Iteration) (m : HeaderMap) :
    ((it.order m).foldl (fun m header => m.insert header.1 header.2)
      (∅ : HeaderMap)).entries.Perm m.entries := by
  have hdistinct : ((it.order m).map Sigma.fst).Nodup :=
    ((it.perm m).map Sigma.fst).nodup_iff.2 m.nodupKeys
  rw [entries_foldl_insert Sigma.fst Sigma.snd (it.order m) ∅ (by simp) hdistinct]
  simpa using (List.reverse_perm _).trans (it.perm m)

theorem statusLine_clean {r : HttpResponse} (h : Serialisable r) (code : Nat) :
    CR ∉ ascii "HTTP/1.1 " ++ toDecimal code ++ [SP] ++ r.statusMessage := by
  have hversion : CR ∉ ascii "HTTP/1.1 " ++ [SP] := by decide
  have hnumber : CR ∉ toDecimal code := fun hmem => by
    have hdigit := isDigit_of_mem_toDecimal hmem
    revert hdigit
    decide
  simp only [List.mem_append, not_or] at hversion ⊢
  exact ⟨⟨⟨hversion.1, hnumber⟩, hversion.2⟩, h.message.1⟩

theorem decodeHeaders_order (it : HttpResponse.Iteration) {r : HttpResponse}
    (h : Serialisable r) (rest : Bytes) :
    let bytes := (it.order r.headers).flatMap HttpResponse.headerToBytes ++
      HttpResponse.crlf ++ rest
    ∃ headers, decodeHeaders (bytes.length + 1) ∅ bytes = some (headers, rest) ∧
      headers.entries.Perm r.headers.entries := by
  have hread : ∀ header ∈ it.order r.headers, ReadsBack header := fun header hmem =>
    h.readsBack ((it.perm r.headers).mem_iff.1 hmem)
  have hlength := length_le_flatMap (it.order r.headers)
  have hfuel : (it.order r.headers).length <
      ((it.order r.headers).flatMap HttpResponse.headerToBytes ++ HttpResponse.crlf ++
        rest).length + 1 := by
    simp only [List.length_append]
    omega
  exact ⟨_, decodeHeaders_flatMap (it.order r.headers) hread hfuel ∅ rest,
    perm_foldl_order it r.headers⟩

theorem decodeBody_bodyToBytes {r : HttpResponse} {headers : HeaderMap}
    (hperm : headers.entries.Perm r.headers.entries) :
    decodeBody headers r.bodyToBytes = some (r.body, []) := by
  rw [decodeBody, AList.perm_lookup hperm]
  split_ifs with hencoding
  · have hchunked : HttpResponse.isChunked r.headers = true := by
      simpa [HttpResponse.isChunked] using hencoding
    have hlast : (ascii "0\r\n\r\n").length = 5 := by decide
    have hle : 5 ≤ r.bodyToBytes.length := by
      rw [HttpResponse.bodyToBytes, if_pos hchunked, List.length_append, hlast]
      omega
    obtain ⟨fuel, hfuel⟩ := Nat.exists_eq_add_of_le' hle
    rw [hfuel]
    exact decodeChunks_body hchunked (fuel + 3)
  · have hplain : HttpResponse.isChunked r.headers = false := by
      simpa [HttpResponse.isChunked] using hencoding
    rw [HttpResponse.bodyToBytes, hplain]
    rfl

/--
Decoding what `to_bytes` returns gives the response back, in whatever order the
header map was written, and leaves no byte over.
-/
theorem decodeResponse_toBytes (it : HttpResponse.Iteration) {r : HttpResponse}
    (h : Serialisable r) :
    ∃ decoded, decodeResponse (r.toBytes it) = some (decoded, []) ∧
      (decoded.status : Int) = r.statusCode.value ∧ decoded.message = r.statusMessage ∧
      decoded.headers.entries.Perm r.headers.entries ∧ decoded.body = r.body := by
  obtain ⟨hlo, hhi⟩ := h.status
  obtain ⟨code, hcode⟩ := Int.eq_ofNat_of_zero_le (by omega : 0 ≤ r.statusCode.value)
  have hdigits : HttpResponse.intToDecimal r.statusCode.value = toDecimal code := by
    rw [HttpResponse.intToDecimal, if_neg (by omega), hcode, Int.natAbs_natCast]
  have hbytes : r.toBytes it = ascii "HTTP/1.1 " ++ toDecimal code ++ [SP] ++ r.statusMessage ++
      HttpResponse.crlf ++ ((it.order r.headers).flatMap HttpResponse.headerToBytes ++
        HttpResponse.crlf ++ r.bodyToBytes) := by
    rw [HttpResponse.toBytes, HttpResponse.headersToBytes, hdigits]
    simp only [List.append_assoc]
  have hline := takeLine_append (statusLine_clean h code)
    ((it.order r.headers).flatMap HttpResponse.headerToBytes ++ HttpResponse.crlf ++ r.bodyToBytes)
  have hstatus := decodeStatusLine_line (length_toDecimal (n := code) (by omega) (by omega))
    r.statusMessage
  obtain ⟨headers, hheaders, hperm⟩ := decodeHeaders_order it h r.bodyToBytes
  refine ⟨⟨code, r.statusMessage, headers, r.body⟩, ?_, hcode.symm, rfl, hperm, rfl⟩
  rw [hbytes, decodeResponse, hline]
  simp only [Option.bind_eq_bind, Option.bind_some, hstatus, decimalValue_toDecimal,
    Option.map_some, hheaders, decodeBody_bodyToBytes hperm]

/-- A body that looks like a header section and a last chunk. -/
theorem decodeResponse_toBytes_chunked :
    let r : HttpResponse :=
      { HttpResponse.ofStatus .Ok with body := ascii "\r\n\r\n0\r\n\r\n" }.setHeader
        "Transfer-Encoding" (ascii "chunked")
    r.toBytes .inOrder = ascii "HTTP/1.1 200 OK\r\nTransfer-Encoding: chunked\r\n\r\n" ++
        ascii "9\r\n\r\n\r\n0\r\n\r\n\r\n0\r\n\r\n" ∧
      ∃ decoded, decodeResponse (r.toBytes .inOrder) = some (decoded, []) ∧
        (decoded.status : Int) = r.statusCode.value ∧ decoded.message = r.statusMessage ∧
        decoded.headers.entries.Perm r.headers.entries ∧ decoded.body = r.body := by
  refine ⟨by decide, decodeResponse_toBytes .inOrder
    ⟨by decide, by decide, by decide, by decide, ?_, ?_⟩⟩
  all_goals
    intro header hmem c hc
    obtain rfl := List.mem_singleton.1 hmem
    cases hc
    decide

end CppHttpd
