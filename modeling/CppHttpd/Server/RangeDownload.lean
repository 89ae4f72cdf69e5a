import CppHttpd.Foundation.Slices
import CppHttpd.Http.Handlers.RangeRequests
import CppHttpd.Server.FileService

/-!
# Downloads in parts

A client asks for a file part by part.  Each response says which part of how large
a file it has, and parts that adjoin are put together to the file.
-/

namespace CppHttpd

open CppHttpd.Foundation

/-- The request is answered with a part of the file, in whatever form it names it. -/
structure ServesPart (env : Environment) (config : Config) (request : HttpRequest) (path : Bytes)
    (i : Inode) (part : Nat × Nat) : Prop extends FindsFile env config request path i where
  range : parseRange (getHeader request.headers (ascii "range")) (env.fs.stat i).size =
    .ok (some part)

/-- What `Content-Range` says. -/
def contentRange (part : Nat × Nat) (size : Nat) : Bytes :=
  ascii "bytes " ++ toDecimal part.1 ++ ascii "-" ++ toDecimal part.2 ++ ascii "/" ++
    toDecimal size

/-- What the client is to read for a part of a file. -/
structure HoldsPart (env : Environment) (i : Inode) (part : Nat × Nat)
    (response : DecodedResponse) : Prop where
  status : response.status = 206
  range : response.headers.lookup (ascii "Content-Range") =
    some (contentRange part (env.fs.stat i).size)
  etag : response.headers.lookup (ascii "ETag") = some (generateEtag (env.fs.stat i))
  within : part.1 ≤ part.2 ∧ part.2 < (env.fs.stat i).size
  body : response.body = slice (env.fs.content i) part

/-- The reply to a request for a part. -/
def IsPartReply (env : Environment) (path : Bytes) (i : Inode) (part : Nat × Nat)
    (reply : Reply) : Prop :=
  ∃ fd, reply = ⟨reply.request, rangeResponse env path (env.fs.stat i) fd part.1 part.2,
    env.fs.content i⟩

section

variable {env : Environment} {config : Config} {request : HttpRequest} {path : Bytes} {i : Inode}
  {part : Nat × Nat}

theorem contentRange_clean (part : Nat × Nat) (size : Nat) :
    CleanValue (contentRange part size) := by
  have hdigits : ∀ n, ∀ c ∈ toDecimal n, c ≠ CR ∧ c ≠ LF ∧ c ≠ SP ∧ c ≠ TAB := by
    intro n c hc
    have hnot : ∀ d ∈ [CR, LF, SP, TAB], d ∉ toDecimal n := fun d hd =>
      not_mem_toDecimal ((forall_mem_of_all (by decide) : ∀ d ∈ [CR, LF, SP, TAB],
        isDigit d = false) d hd) n
    refine ⟨?_, ?_, ?_, ?_⟩ <;>
      · rintro rfl
        exact hnot _ (by simp) hc
  have hunit : CleanValue (ascii "bytes") :=
    cleanValue_of_forall (forall_mem_of_all (by decide))
  have hmark : ∀ mark ∈ ascii "-/", mark ≠ CR ∧ mark ≠ LF ∧ mark ≠ SP ∧ mark ≠ TAB :=
    forall_mem_of_all (by decide)
  have hdash : ascii "-" ⊆ ascii "-/" := by decide
  have hslash : ascii "/" ⊆ ascii "-/" := by decide
  have hpositions : CleanValue (toDecimal part.1 ++ ascii "-" ++ toDecimal part.2 ++ ascii "/" ++
      toDecimal size) := by
    refine cleanValue_of_forall fun c hc => ?_
    simp only [List.mem_append] at hc
    rcases hc with (((hc | hc) | hc) | hc) | hc
    · exact hdigits _ c hc
    · exact hmark c (hdash hc)
    · exact hdigits _ c hc
    · exact hmark c (hslash hc)
    · exact hdigits _ c hc
  have hsplit : contentRange part size = ascii "bytes" ++ SP :: (toDecimal part.1 ++ ascii "-" ++
      toDecimal part.2 ++ ascii "/" ++ toDecimal size) := by
    simp [contentRange, ascii]
    rfl
  rw [hsplit]
  exact hunit.append_cons hpositions ⟨by decide, by simp [ascii]⟩ (by decide)

theorem Capable.serialisable_rangeResponse (h : Capable env) (path : Bytes) (st : Stat) (fd : Fd)
    (part : Nat × Nat) : Serialisable (rangeResponse env path st fd part.1 part.2) := by
  unfold rangeResponse
  exact (((h.serialisable_fileResponse (by decide) path st).setHeader (by decide)
    (contentRange_clean part st.size)).setHeader (by decide) (toDecimal_clean _)).withFile _ _ _

theorem ServesPart.handle_eq (h : ServesPart env config request path i part)
    (hcapable : Capable env) (acceptingNewConnections : Bool) (clientRemoteAddr : Option Bytes)
    (s : OsState) :
    ∃ fd, handle env config request acceptingNewConnections clientRemoteAddr s =
      (.ok (rangeResponse env path (env.fs.stat i) fd part.1 part.2),
        { openFds := fd :: s.openFds, accesses := .served i :: s.accesses }) := by
  obtain ⟨fd, hfd⟩ := h.toFindsFile.handle_eq hcapable acceptingNewConnections clientRemoteAddr s
  exact ⟨fd, hfd.trans (serveOpenFile_range h.range)⟩

theorem ServesPart.expects {setting : ThreadSetting} {k : Nat}
    (h : ServesPart (setting.env k) setting.config request path i part)
    (hcapable : Capable (setting.env k)) :
    Expects setting k request (IsPartReply (setting.env k) path i part) := by
  intro s
  obtain ⟨fd, hhandle⟩ := h.handle_eq hcapable (setting.accepting k) setting.clientRemoteAddr s
  exact ⟨_, _, hhandle, fd, rfl⟩

theorem ServesPart.understood (h : ServesPart env config request path i part)
    (hcapable : Capable env) (fd : Fd) :
    let reply : Reply :=
      ⟨request, rangeResponse env path (env.fs.stat i) fd part.1 part.2, env.fs.content i⟩
    reply.transmission.body = slice (env.fs.content i) part ∧ reply.Understood := by
  intro reply
  obtain ⟨hordered, hwithin⟩ := parseRange_within h.range
  have hpart : reply.part = slice (env.fs.content i) part := by
    simp [reply, Reply.part, rangeResponse, slice]
  have hpayload : reply.transmission.payload = slice (env.fs.content i) part := hpart
  have hbody : reply.transmission.body = slice (env.fs.content i) part := hpart
  have honly : OnlyLength reply.sent.headers :=
    (rangeResponse_onlyLength path (env.fs.stat i) fd part.1 part.2).setHeader (by decide)
  have hlength : reply.sent.headers.lookup (ascii "Content-Length") =
      some (toDecimal (part.2 - part.1 + 1)) :=
    (AList.lookup_insert_ne (by decide)).trans (AList.lookup_insert _)
  have hsize : (slice (env.fs.content i) part).length = part.2 - part.1 + 1 := by
    rw [slice, List.length_take, List.length_drop, h.sized]
    omega
  refine ⟨hbody, ?_, .inl (.length ?_ (honly.framing (t := reply.transmission) hlength) (by decide)
    ?_ ?_)⟩
  · exact (hcapable.serialisable_rangeResponse path _ fd part).setHeader (by decide)
      (connectionValue_clean request)
  · change hasNoBody request.method 206 = false
    rw [h.get]
    rfl
  · rw [decimalValue_toDecimal, hpayload, hsize]
  · rw [hbody, hpayload]

theorem ServesPart.holdsPart (h : ServesPart env config request path i part)
    (hcapable : Capable env) (fd : Fd) {response : DecodedResponse}
    (hread : Transmission.ReadAs (Reply.transmission ⟨request,
      rangeResponse env path (env.fs.stat i) fd part.1 part.2, env.fs.content i⟩) response) :
    HoldsPart env i part response where
  status := Int.ofNat.inj hread.status
  range := by
    rw [AList.perm_lookup hread.headers]
    change (AList.insert _ _ (AList.insert _ _ (AList.insert _ _ _))).lookup _ = _
    rw [AList.lookup_insert_ne (by decide), AList.lookup_insert_ne (by decide),
      AList.lookup_insert]
    rfl
  etag := by
    have hother : ∀ name ∈ ["Connection", "Content-Length", "Content-Range", "Cache-Control"],
        ascii "ETag" ≠ ascii name := by decide
    rw [AList.perm_lookup hread.headers]
    change (AList.insert _ _ (AList.insert _ _ (AList.insert _ _ (AList.insert _ _
      (AList.insert _ _ _))))).lookup _ = _
    rw [AList.lookup_insert_ne (hother "Connection" (by simp)),
      AList.lookup_insert_ne (hother "Content-Length" (by simp)),
      AList.lookup_insert_ne (hother "Content-Range" (by simp)),
      AList.lookup_insert_ne (hother "Cache-Control" (by simp)), AList.lookup_insert]
  within := parseRange_within h.range
  body := hread.body.trans (h.understood hcapable fd).1

end

/--
A client that asks for parts of files reads these parts, however the requests and the
responses are cut up on the way.  If the parts adjoin and the file is not changed, it
has put the file together when the last response is read.
-/
theorem serveConnection_parts (setting : ThreadSetting) (os : OsState)
    (rs : List (WrittenRequest × Nat × Nat)) (path : Nat → Bytes) (inode : Nat → Inode)
    (hparts : ∀ k r part, rs[k]? = some (r, part) →
      ServesPart (setting.env k) setting.config r.parsed (path k) (inode k) part)
    (hcapable : ∀ k, Capable (setting.env k)) (reads : List Bytes)
    (hreads : ∀ data ∈ reads, data ≠ [])
    (hstream : reads.flatten = rs.flatMap fun r => r.1.bytes)
    (hlines : RequestParser.StreamLinesWithin reads.flatten)
    (answers : List Answer) (hanswers : ∀ a ∈ answers, a.fails = false)
    (hwriting : (serveConnection setting os (untilEnd reads) answers).stage ≠ .writing) :
    ∃ decoded,
      readResponses (rs.map fun r => r.1.method)
          ((serveConnection setting os (untilEnd reads) answers).written.flatMap Written.bytes) =
        some decoded ∧
      decoded.length = (uptoClose (rs.map fun r => r.1.parsed)).length ∧
      (∀ k response, decoded[k]? = some response → ∃ r part, rs[k]? = some (r, part) ∧
        HoldsPart (setting.env k) (inode k) part response) ∧
      ∀ content, (∀ k, (setting.env k).fs.content (inode k) = content) →
        Adjoining 0 (rs.map Prod.snd) content.length →
        (∀ r ∈ rs.dropLast, wantsClose r.1.parsed = false) →
        decoded.flatMap DecodedResponse.body = content := by
  have hfirst : ∀ k r, (rs.map Prod.fst)[k]? = some r → ∃ part, rs[k]? = some (r, part) ∧
      ServesPart (setting.env k) setting.config r.parsed (path k) (inode k) part := by
    intro k r hr
    rw [List.getElem?_map, Option.map_eq_some_iff] at hr
    obtain ⟨⟨r, part⟩, hr, rfl⟩ := hr
    exact ⟨part, hr, hparts k r part hr⟩
  let expected (k : Nat) (reply : Reply) : Prop := ∃ r part, rs[k]? = some (r, part) ∧
    reply.request = r.parsed ∧ IsPartReply (setting.env k) (path k) (inode k) part reply
  have hexpects : ∀ k r, (rs.map Prod.fst)[k]? = some r →
      Expects setting k r.parsed (expected k) := by
    intro k r hr s
    obtain ⟨part, hk, hpart⟩ := hfirst k r hr
    obtain ⟨response, os, hhandle, hreply⟩ := hpart.expects (hcapable k) s
    exact ⟨response, os, hhandle, r, part, hk, rfl, hreply⟩
  have hunderstood : ∀ k r reply, (rs.map Prod.fst)[k]? = some r → reply.request = r.parsed →
      expected k reply → reply.Understood := by
    rintro k - reply - - ⟨r, part, hk, hrequest, fd, hreply⟩
    rw [hreply, hrequest]
    exact ((hparts k r part hk).understood (hcapable k) fd).2
  have hstream' : reads.flatten = (rs.map Prod.fst).flatMap WrittenRequest.bytes := by
    rw [hstream, List.flatMap_map]
  obtain ⟨decoded, hread, hlength, hall⟩ := serveConnection_expected setting os _ expected hexpects
    hunderstood reads hreads hstream' hlines answers hanswers hwriting
  rw [List.map_map] at hread hlength
  have hholds : ∀ k response, decoded[k]? = some response → ∃ r part, rs[k]? = some (r, part) ∧
      HoldsPart (setting.env k) (inode k) part response := by
    intro k response hk
    obtain ⟨-, reply, -, -, ⟨r, part, hr, hrequest, fd, hreply⟩, hmatch⟩ := hall k response hk
    rw [hreply, hrequest] at hmatch
    exact ⟨r, part, hr, (hparts k r part hr).holdsPart (hcapable k) fd hmatch⟩
  refine ⟨decoded, hread, hlength, hholds, fun content hcontent hadjoin hkeeps => ?_⟩
  have hwhole : uptoClose (rs.map fun r => r.1.parsed) = rs.map fun r => r.1.parsed := by
    refine uptoClose_dropLast fun request hmem => ?_
    rw [← List.map_dropLast] at hmem
    obtain ⟨r, hr, rfl⟩ := List.mem_map.1 hmem
    exact hkeeps r hr
  have hbodies : decoded.map DecodedResponse.body = (rs.map Prod.snd).map (slice content) := by
    have hsame : decoded.length = rs.length := by
      rw [hlength]
      exact (congrArg List.length hwhole).trans (List.length_map _)
    apply List.ext_getElem (by simp [hsame])
    intro k hk hk'
    have hlt : k < decoded.length := by simpa using hk
    obtain ⟨r, part, hr, hpart⟩ := hholds k _ (List.getElem?_eq_getElem hlt)
    obtain ⟨_, hr⟩ := List.getElem?_eq_some_iff.1 hr
    rw [List.getElem_map, List.getElem_map, List.getElem_map, hr, hpart.body, hcontent]
  rw [← hadjoin.flatMap_slice, List.flatMap_def, hbodies, List.flatMap_def]

/-- The first two bytes of the file, and then the last two. -/
def rangeReads : List Bytes :=
  [ascii "GET /a.txt HTTP/1.1\nRange:bytes=0",
    ascii "-1\n\nGET /a.txt HTTP/1.1\nRange:bytes=-2\n\n"]

/-- The file is sent in two parts, the second of them byte by byte. -/
def rangeAnswers : List Answer :=
  [.write (.ok 276), .sendfile (.ok 2), .write (.ok 276), .sendfile (.ok 1), .sendfile (.ok 1)]

theorem serveConnection_parts_text : ∃ decoded,
    readResponses [.GET, .GET] ((serveConnection textThread {} (untilEnd rangeReads)
      rangeAnswers).written.flatMap Written.bytes) = some decoded ∧
    decoded.flatMap DecodedResponse.body = ascii "text" := by
  let first : WrittenHeader :=
    { name := ascii "Range", padding := [], value := ascii "bytes=0-1", lineEnd := .lf
      name_ne := by decide, name_noColon := by decide
      name_noSpace := List.forall_iff_forall_mem.1 (by decide)
      padding_blank := by simp, value_noLF := by decide
      value_head := by rintro c ⟨⟩; decide
      value_last := by rintro c ⟨⟩; decide }
  let last : WrittenHeader :=
    { first with
      value := ascii "bytes=-2"
      value_noLF := by decide
      value_head := by rintro c ⟨⟩; decide
      value_last := by rintro c ⟨⟩; decide }
  let request (header : WrittenHeader) (hname : header.name = ascii "Range") : WrittenRequest :=
    { method := .GET, uri := ascii "/a.txt", lineEnd := .lf, headers := [header], blankEnd := .lf
      body := [], uri_ne := by decide, uri_noSP := by decide, uri_noLF := by decide
      names_distinct := by simp, body_le := by decide
      post_length := fun hpost => by cases hpost
      other_body := fun _ => ⟨rfl, by
        rw [List.forall_mem_singleton, hname]
        decide⟩ }
  let rs : List (WrittenRequest × Nat × Nat) := [(request first rfl, 0, 1), (request last rfl, 2, 3)]
  have hserves : ∀ r ∈ rs, ServesPart textSite textConfig r.1.parsed (ascii "/a.txt") 1 r.2 := by
    have hserved : ∀ r ∈ rs,
        servedFile textSite textConfig r.1.parsed = some (ascii "/a.txt") ∧
        notModified textSite r.1.parsed (textSite.fs.stat 1) = false ∧
        checkAccept r.1.parsed (contentTypeFromSuffix (ascii "/a.txt")) = true ∧
        parseRange (getHeader r.1.parsed.headers (ascii "range")) 4 = .ok (some r.2) ∧
        r.1.parsed.method = .GET := by
      decide +kernel
    have hreached : textSite.fs.reach (ascii "/a.txt") = some 1 := by decide +kernel
    intro r hr
    obtain ⟨hfile, hmodified, haccept, hrange, hget⟩ := hserved r hr
    exact ⟨⟨hfile, hreached, rfl, rfl, rfl, hget, hmodified, haccept⟩, hrange⟩
  obtain ⟨decoded, hread, -, -, hwhole⟩ := serveConnection_parts textThread {} rs
    (fun _ => ascii "/a.txt") (fun _ => 1)
    (fun k r part hk => hserves (r, part) (List.mem_of_getElem? hk)) (fun _ => capable_textSite)
    rangeReads (by decide) (by decide) (RequestParser.linesWithin_of_length (by decide))
    rangeAnswers (by simp [rangeAnswers, Answer.fails]) (by decide +kernel)
  refine ⟨decoded, hread, hwhole (ascii "text") (fun _ => rfl) ?_ (by decide +kernel)⟩
  exact .cons (by decide) (.cons (by decide) (.nil 4))

end CppHttpd
