import CppHttpd.Http.Handlers.BodyFile

/-!
# Range requests

`parse_range` cuts a header value at the first dash.  What it returns is checked
against the size of the file, so that the part that is served lies within it.
-/

namespace CppHttpd

open CppHttpd.Foundation

/-! ## The parts of a range -/

def byteRange (first last : Bytes) : Bytes := ascii "bytes=" ++ (first ++ DASH :: last)

/-- The last comparison of `parse_range`. -/
def checkRange (start last fileSize : Nat) : Option (Nat × Nat) :=
  if start > last ∨ last ≥ fileSize then none else some (start, last)

def lastPosition (fileSize : Nat) : Nat := if fileSize > 0 then fileSize - 1 else 0

section

variable {first last : Bytes} {fileSize : Nat}

theorem parseRange_byteRange (hdash : DASH ∉ first) :
    parseRange (byteRange first last) fileSize =
      if first = [] ∧ last = [] then .ok none
      else if first = [] then
        (stoull last).map fun suffix =>
          checkRange (if suffix ≥ fileSize then 0 else fileSize - suffix) (lastPosition fileSize)
            fileSize
      else (stoull first).bind fun start =>
        if last = [] then .ok (checkRange start (lastPosition fileSize) fileSize)
        else (stoull last).map fun last => checkRange start last fileSize := by
  have hprefix : compareEq (byteRange first last) 0 6 (ascii "bytes=") (zero_le_length _) =
      true := by
    simp [compareEq, byteRange, ascii]
  have hspec : (byteRange first last).drop 6 = first ++ DASH :: last := rfl
  have hfind := find_append_cons hdash last
  unfold parseRange
  rw [dif_pos hprefix]
  dsimp only
  split
  · rename_i hnone
    rw [substrFrom_eq, hspec, hfind] at hnone
    cases hnone
  · rename_i dash hsome
    rw [substrFrom_eq, hspec, hfind] at hsome
    obtain rfl := Option.some.inj hsome
    have hlast : (first ++ DASH :: last).drop (first.length + 1) = last := by
      rw [← List.drop_drop, List.drop_left]
      rfl
    have hchecked (a b : Nat) : (if a > b ∨ b ≥ fileSize then .ok none
        else .ok (some (a, b)) : Except StdException _) = .ok (checkRange a b fileSize) := by
      unfold checkRange
      split_ifs <;> rfl
    simp only [substrFrom_eq, substr_eq, hspec, List.drop_zero, List.take_left, hlast, hchecked]
    by_cases hfirst : first = []
    · by_cases hempty : last = []
      · simp [hfirst, hempty]
      · simp only [hfirst, hempty, and_false, if_false, if_true]
        cases stoull last <;> rfl
    · simp only [hfirst, false_and, if_false]
      cases stoull first with
      | error e => rfl
      | ok start =>
          by_cases hempty : last = []
          · simp only [hempty, ne_eq, not_true_eq_false, if_false, if_true]
            rfl
          · simp only [hempty, ne_eq, not_false_eq_true, if_false, if_true]
            cases stoull last <;> rfl

/-- Only such a value is ever a valid range. -/
theorem exists_byteRange {header : Bytes} {range : Nat × Nat}
    (h : parseRange header fileSize = .ok (some range)) :
    ∃ first last, DASH ∉ first ∧ header = byteRange first last := by
  unfold parseRange at h
  split at h
  case isFalse => cases h
  case isTrue hprefix =>
    dsimp only at h
    split at h
    case h_1 => cases h
    case h_2 dash hsome =>
      rw [substrFrom_eq] at hsome
      obtain ⟨hcut, hdash⟩ := find_split hsome
      refine ⟨_, (header.drop 6).drop (dash + 1), hdash, ?_⟩
      have htake : header.take 6 = ascii "bytes=" := by simpa [compareEq] using hprefix
      rw [byteRange, ← hcut, ← htake, List.take_append_drop]

end

/-! ## Unsigned arithmetic -/

theorem prefix_fits {header : Bytes}
    (h : compareEq header 0 6 (ascii "bytes=") (zero_le_length header) = true) :
    6 ≤ header.length := by
  simpa using compareEq_length (by decide) h

theorem dash_fits {spec : Bytes} {dash : Nat} (h : find spec DASH 0 = some dash) :
    dash + 1 ≤ spec.length :=
  find_lt h

/-- `parse_range` with the arithmetic of `size_t`. -/
def parseRange64 (header : Bytes) (fileSize : UInt64) :
    Except StdException (Option (UInt64 × UInt64)) :=
  if h : compareEq header 0 6 (ascii "bytes=") (zero_le_length _) = true then
    let spec := substrFrom header 6 (prefix_fits h)
    match hd : find spec DASH 0 with
    | none => .ok none
    | some dash =>
        let startStr := substr spec 0 dash (zero_le_length _)
        let endStr := substrFrom spec (dash + 1) (dash_fits hd)
        let last := if fileSize > 0 then fileSize - 1 else 0
        if startStr = [] ∧ endStr = [] then .ok none
        else do
          let (start, last) ←
            if startStr = [] then do
              let suffix := UInt64.ofNat (← stoull endStr)
              .ok (if suffix ≥ fileSize then 0 else fileSize - suffix, last)
            else do
              let start := UInt64.ofNat (← stoull startStr)
              let last ← if endStr ≠ [] then (stoull endStr).map UInt64.ofNat else .ok last
              .ok (start, last)
          if start > last ∨ last ≥ fileSize then .ok none else .ok (some (start, last))
  else .ok none

theorem stoull_lt {s : Bytes} {n : Nat} (h : stoull s = .ok n) : n < 2 ^ 64 := by
  unfold stoull at h
  dsimp only at h
  split_ifs at h with hdigits hrange hnegative
  · cases h
    exact Nat.mod_lt _ (by decide)
  · cases h
    omega

section

variable {fileSize : Nat} (hsize : fileSize < 2 ^ 64)

include hsize

theorem checkRange64 {start last : Nat} (hstart : start < 2 ^ 64) (hlast : last < 2 ^ 64) :
    (if UInt64.ofNat start > UInt64.ofNat last ∨ UInt64.ofNat last ≥ UInt64.ofNat fileSize
      then .ok none else .ok (some (UInt64.ofNat start, UInt64.ofNat last)) :
      Except StdException _) =
    (if start > last ∨ last ≥ fileSize then .ok none else .ok (some (start, last)) :
      Except StdException _).map (Option.map (Prod.map UInt64.ofNat UInt64.ofNat)) := by
  have hcheck : (UInt64.ofNat start > UInt64.ofNat last ∨
      UInt64.ofNat last ≥ UInt64.ofNat fileSize) ↔ (start > last ∨ last ≥ fileSize) := by
    rw [gt_iff_lt, ge_iff_le, UInt64.lt_iff_toNat_lt, UInt64.le_iff_toNat_le,
      UInt64.toNat_ofNat_of_lt' hstart, UInt64.toNat_ofNat_of_lt' hlast,
      UInt64.toNat_ofNat_of_lt' hsize]
  simp only [hcheck]
  split_ifs <;> rfl

theorem lastPosition64 :
    (if UInt64.ofNat fileSize > 0 then UInt64.ofNat fileSize - 1 else 0) =
      UInt64.ofNat (if fileSize > 0 then fileSize - 1 else 0) := by
  have hpos : UInt64.ofNat fileSize > 0 ↔ fileSize > 0 := by
    rw [gt_iff_lt, UInt64.lt_iff_toNat_lt, UInt64.toNat_ofNat_of_lt' hsize]
    rfl
  simp only [hpos]
  split_ifs with h
  · exact (UInt64.ofNat_sub h).symm
  · rfl

theorem suffixStart64 {suffix : Nat} (hsuffix : suffix < 2 ^ 64) :
    (if UInt64.ofNat suffix ≥ UInt64.ofNat fileSize then 0
      else UInt64.ofNat fileSize - UInt64.ofNat suffix) =
      UInt64.ofNat (if suffix ≥ fileSize then 0 else fileSize - suffix) := by
  have hcheck : UInt64.ofNat suffix ≥ UInt64.ofNat fileSize ↔ suffix ≥ fileSize := by
    rw [ge_iff_le, UInt64.le_iff_toNat_le, UInt64.toNat_ofNat_of_lt' hsize,
      UInt64.toNat_ofNat_of_lt' hsuffix]
  simp only [hcheck]
  split_ifs with h
  · rfl
  · exact (UInt64.ofNat_sub (by omega)).symm

/-- No step of it wraps around. -/
theorem parseRange64_eq (header : Bytes) :
    parseRange64 header (.ofNat fileSize) =
      (parseRange header fileSize).map (Option.map (Prod.map UInt64.ofNat UInt64.ofNat)) := by
  have hlast : (if fileSize > 0 then fileSize - 1 else 0) < 2 ^ 64 := by
    split_ifs <;> omega
  unfold parseRange64
  by_cases hprefix : compareEq header 0 6 (ascii "bytes=") (zero_le_length _) = true
  · rw [dif_pos hprefix]
    dsimp only
    simp only [lastPosition64 hsize]
    split
    · rename_i hnone
      unfold parseRange
      rw [dif_pos hprefix]
      dsimp only
      split
      · rfl
      · rename_i hsome
        rw [hnone] at hsome
        cases hsome
    · rename_i dash hsome
      -- the search on the other side finds the same dash
      unfold parseRange
      rw [dif_pos hprefix]
      dsimp only
      generalize (if fileSize > 0 then fileSize - 1 else 0) = position at hlast
      symm
      split
      · rename_i hnone
        rw [hnone] at hsome
        cases hsome
      · rename_i dash' hsome'
        obtain rfl := Option.some.inj (hsome.symm.trans hsome')
        symm
        generalize substr (substrFrom header 6 _) 0 dash _ = startStr
        generalize substrFrom (substrFrom header 6 _) (dash + 1) _ = endStr
        split_ifs with hempty hsuffix hopen
        · rfl
        · cases hvalue : stoull endStr with
          | error e => rfl
          | ok suffix =>
              simp only [bind, Except.bind, suffixStart64 hsize (stoull_lt hvalue)]
              exact checkRange64 hsize (by split_ifs <;> omega) hlast
        · cases hstart : stoull startStr with
          | error e => rfl
          | ok start =>
              cases hend : stoull endStr with
              | error e => rfl
              | ok last => exact checkRange64 hsize (stoull_lt hstart) (stoull_lt hend)
        · cases hstart : stoull startStr with
          | error e => rfl
          | ok start => exact checkRange64 hsize (stoull_lt hstart) hlast
  · unfold parseRange
    rw [dif_neg hprefix, dif_neg hprefix]
    rfl

end

/-- A range in the unsigned and signed numbers of 64 bits that the source computes with. -/
structure ExactRange (header : Bytes) (start last fileSize : Nat) : Prop where
  ordered : start ≤ last
  within : last < fileSize
  parsed : parseRange64 header (.ofNat fileSize) = .ok (some (.ofNat start, .ofNat last))
  length : (UInt64.ofNat last - UInt64.ofNat start + 1).toNat = last - start + 1
  offset : (UInt64.ofNat start).toInt64.toInt = start
  size : (UInt64.ofNat last - UInt64.ofNat start + 1).toInt64.toInt = (last - start + 1 : Nat)

structure ExactResponse (response : HttpResponse) (fd : Fd) (start last fileSize : Nat) : Prop where
  statusCode : response.statusCode = .PartialContent
  bodyFd : response.bodyFd = some fd
  bodyFdOffset : response.bodyFdOffset = start
  bodyFdSize : response.bodyFdSize = (last - start + 1 : Nat)
  contentLength : response.headers.lookup (ascii "Content-Length") =
    some (toDecimal (last - start + 1))
  contentRange : response.headers.lookup (ascii "Content-Range") =
    some (ascii "bytes " ++ toDecimal start ++ ascii "-" ++ toDecimal last ++ ascii "/" ++
      toDecimal fileSize)
  within : response.bodyFdOffset + response.bodyFdSize ≤ fileSize

theorem toInt64_ofNat {n : Nat} (h : n < 2 ^ 63) : (UInt64.ofNat n).toInt64.toInt = n := by
  have hn : (BitVec.ofNat 64 n).toNat = n := by
    rw [BitVec.toNat_ofNat]
    exact Nat.mod_eq_of_lt (by omega)
  calc (UInt64.ofNat n).toInt64.toInt
      = (BitVec.ofNat 64 n).toInt := rfl
    _ = (BitVec.ofNat 64 n).toNat := BitVec.toInt_eq_toNat_of_lt (by omega)
    _ = n := by rw [hn]

theorem parseRange_exact {header : Bytes} {fileSize start last : Nat} (hsize : fileSize < 2 ^ 63)
    (h : parseRange header fileSize = .ok (some (start, last))) :
    ExactRange header start last fileSize := by
  obtain ⟨hordered, hwithin⟩ := parseRange_within h
  have hlength : UInt64.ofNat last - UInt64.ofNat start + 1 = UInt64.ofNat (last - start + 1) := by
    rw [← UInt64.ofNat_sub hordered, UInt64.ofNat_add]
    rfl
  refine ⟨hordered, hwithin, ?_, ?_, ?_, ?_⟩
  · rw [parseRange64_eq (by omega), h]
    rfl
  · rw [hlength, UInt64.toNat_ofNat_of_lt' (by simp only [UInt64.size]; omega)]
  · exact toInt64_ofNat (by omega)
  · rw [hlength, toInt64_ofNat (by omega)]

theorem rangeResponse_exact (env : Environment) (path : Bytes) (st : Stat) (fd : Fd)
    {start last : Nat} (hordered : start ≤ last) (hwithin : last < st.size) :
    ExactResponse (rangeResponse env path st fd start last) fd start last st.size where
  statusCode := rfl
  bodyFd := rfl
  bodyFdOffset := rfl
  bodyFdSize := rfl
  contentLength := AList.lookup_insert _
  contentRange := by
    have hne : ascii "Content-Range" ≠ ascii "Content-Length" := by decide
    exact (AList.lookup_insert_ne hne).trans (AList.lookup_insert _)
  within := by
    simp only [rangeResponse]
    omega

theorem serveOpenFile_range {env : Environment} {path : Bytes} {request : HttpRequest} {st : Stat}
    {fd : Fd} {s : OsState} {start last : Nat}
    (h : parseRange (getHeader request.headers (ascii "range")) st.size =
      .ok (some (start, last))) :
    serveOpenFile env path request st fd s =
      (.ok (rangeResponse env path st fd start last), s) := by
  have hpresent : getHeader request.headers (ascii "range") ≠ [] := by
    intro hempty
    rw [hempty] at h
    cases h
  unfold serveOpenFile
  dsimp only
  rw [if_pos hpresent, h]

/-- Nothing before the look at the `Range` header has answered the request. -/
structure Opens (env : Environment) (path : Bytes) (request : HttpRequest) (s : OsState)
    (st : Stat) (fd : Fd) (s' : OsState) : Prop where
  stat : env.fs.statPath path = some st
  regular : st.kind = .regular
  modified : notModified env request st = false
  acceptable : checkAccept request (contentTypeFromSuffix path) = true
  opened : s.openFile env path = (some fd, s')

theorem Opens.serveStaticFile_eq {env : Environment} {path : Bytes} {request : HttpRequest}
    {s : OsState} {st : Stat} {fd : Fd} {s' : OsState} (h : Opens env path request s st fd s') :
    serveStaticFile env path request s = serveOpenFile env path request st fd s' := by
  unfold serveStaticFile
  simp only [h.stat, h.regular, h.modified, h.acceptable, h.opened]
  simp

/-- Only a valid range is answered with a part of the file. -/
theorem serveOpenFile_partial {env : Environment} {path : Bytes} {request : HttpRequest}
    {st : Stat} {fd : Fd} {s : OsState} {response : HttpResponse}
    (h : (serveOpenFile env path request st fd s).1 = .ok response)
    (hstatus : response.statusCode = .PartialContent) :
    ∃ start last,
      parseRange (getHeader request.headers (ascii "range")) st.size = .ok (some (start, last)) ∧
      response = rangeResponse env path st fd start last := by
  unfold serveOpenFile at h
  dsimp only at h
  split_ifs at h
  · split at h
    · cases h
    · cases h
      cases hstatus
    · rename_i start last hparse
      cases h
      exact ⟨start, last, hparse, rfl⟩
  · cases h
    cases hstatus

theorem serveStaticFile_partial {env : Environment} {path : Bytes} {request : HttpRequest}
    {s : OsState} {response : HttpResponse}
    (h : (serveStaticFile env path request s).1 = .ok response)
    (hstatus : response.statusCode = .PartialContent) :
    ∃ st fd s' start last, Opens env path request s st fd s' ∧
      parseRange (getHeader request.headers (ascii "range")) st.size = .ok (some (start, last)) ∧
      response = rangeResponse env path st fd start last := by
  unfold serveStaticFile at h
  split at h
  · cases h
    cases hstatus
  · rename_i st hstat
    split_ifs at h with hregular hmodified hacceptable
    · cases h
      cases hstatus
    · cases h
      cases hstatus
    · cases h
      cases hstatus
    · split at h
      · cases h
        cases hstatus
      · rename_i fd s' hopened
        have hopens : Opens env path request s st fd s' :=
          ⟨hstat, not_not.1 hregular, by simpa using hmodified, by simpa using hacceptable,
            hopened⟩
        obtain ⟨start, last, hparse, hresponse⟩ := serveOpenFile_partial h hstatus
        exact ⟨st, fd, s', start, last, hopens, hparse, hresponse⟩

/-- A valid range lies within the file, and the response serves exactly that range. -/
theorem serveStaticFile_range_exact {header : Bytes} {fileSize start last : Nat}
    (hsize : fileSize < 2 ^ 63)
    (h : parseRange header fileSize = .ok (some (start, last))) :
    ExactRange header start last fileSize ∧
      ∀ env path request st, env.fs.statPath path = some st → st.size = fileSize →
        getHeader request.headers (ascii "range") = header →
        (∀ fd s, ∃ response, serveOpenFile env path request st fd s = (.ok response, s) ∧
          ExactResponse response fd start last fileSize) ∧
        ∀ s response, (serveStaticFile env path request s).1 = .ok response →
          response.statusCode = .PartialContent →
          ∃ fd, ExactResponse response fd start last fileSize := by
  have hexact := parseRange_exact hsize h
  refine ⟨hexact, ?_⟩
  rintro env path request st hstat rfl rfl
  have hresponse (fd : Fd) := rangeResponse_exact env path st fd hexact.ordered hexact.within
  constructor
  · intro fd s
    exact ⟨_, serveOpenFile_range h, hresponse fd⟩
  · intro s response hserve hstatus
    obtain ⟨st', fd, s', start', last', hopens, h', rfl⟩ :=
      serveStaticFile_partial hserve hstatus
    cases hstat.symm.trans hopens.stat
    cases h.symm.trans h'
    exact ⟨fd, hresponse fd⟩

/-- The end of the range is written as a negative number, which wraps around to 2. -/
theorem serveStaticFile_range_exact_negative :
    let header := ascii "bytes=0--18446744073709551614"
    let env := Environment.still (.flat [(ascii "a.txt", ascii "0123456789")]) fun _ => .forkFailed
    let request : HttpRequest := { headers := AList.singleton (ascii "range") header }
    ExactRange header 0 2 10 ∧
      ∃ response, serveOpenFile env (ascii "/a.txt") request (env.fs.stat 1) 3 {} =
        (.ok response, {}) ∧ ExactResponse response 3 0 2 10 := by
  intro header env request
  have hparse : parseRange header 10 = .ok (some (0, 2)) := by rfl
  have hexact := serveStaticFile_range_exact (by decide) hparse
  have hstat : env.fs.statPath (ascii "/a.txt") = some (env.fs.stat 1) := by rfl
  exact ⟨hexact.1, (hexact.2 env (ascii "/a.txt") request _ hstat rfl rfl).1 3 {}⟩

end CppHttpd
