import CppHttpd.Http.Core.HttpRequest
import Mathlib.Data.List.DropRight

/-!
# Text utilities

The helpers of `request_handler_utils.cpp` that cut header lines, URIs and
paths.
-/

namespace CppHttpd

open CppHttpd.Foundation

/-! ## Trimming and header lines -/

def findFirstNotOf (s set : Bytes) : Option Nat :=
  s.findIdx? fun c => !set.contains c

def findLastNotOf (s set : Bytes) : Option Nat :=
  (s.reverse.findIdx? fun c => !set.contains c).map (s.length - 1 - ·)

theorem findFirstNotOf_lt {s set : Bytes} {first : Nat}
    (h : findFirstNotOf s set = some first) : first < s.length :=
  (List.findIdx?_eq_some_iff_getElem.mp h).1

def trim (s : Bytes) (whitespace : Bytes := ascii " \t\r\n") : Bytes :=
  match h : findFirstNotOf s whitespace with
  | none => []
  | some first =>
      match findLastNotOf s whitespace with
      | none => substrFrom s first (findFirstNotOf_lt h).le
      | some last => substr s first (last - first + 1) (findFirstNotOf_lt h).le

def toLower (s : Bytes) : Bytes := s.map toLowerByte

def parseHeaderLine (line : Bytes) (lowercaseName : Bool) : Bytes × Bytes :=
  match h : find line COLON 0 with
  | none => ([], [])
  | some colon =>
      if colon = 0 then ([], [])
      else
        let name := trim (substr line 0 colon (zero_le_length _))
        let value := trim (substrFrom line (colon + 1) (find_lt h))
        if name = [] then ([], [])
        else if lowercaseName then (toLower name, value)
        else (name, value)

def getHeader (headers : HeaderMap) (name : Bytes) : Bytes :=
  (headers.lookup name).getD []

def splitUri (uri : Bytes) : Bytes × Bytes :=
  match h : find uri QUESTION 0 with
  | none => (uri, [])
  | some q => (substr uri 0 q (zero_le_length _), substrFrom uri (q + 1) (find_lt h))

def trimTrailingSlash (s : Bytes) : Bytes :=
  if s = [] then s
  else if s.getLast? = some SLASH then substr s 0 (s.length - 1) (zero_le_length _)
  else s

def trimLeadingSlash (s : Bytes) : Bytes :=
  match s with
  | [] => s
  | c :: rest => if c = SLASH then substrFrom (c :: rest) 1 (by simp) else s

def startsWith (s pre : Bytes) : Bool :=
  compareEq (toLower s) 0 (toLower pre).length (toLower pre) (zero_le_length _)

/-! ## Paths -/

/-- What `normalize_path` does at the end of a segment. -/
def closeSegment (parts : List Bytes) (segment : Bytes) : List Bytes :=
  if segment = ascii ".." then parts.dropLast
  else if segment ≠ [] ∧ segment ≠ ascii "." then parts ++ [segment]
  else parts

def normalizeLoop (parts : List Bytes) (segment : Bytes) : Bytes → List Bytes
  | [] => closeSegment parts segment
  | c :: rest =>
      if c = SLASH then normalizeLoop (closeSegment parts segment) [] rest
      else normalizeLoop parts (segment ++ [c]) rest

def normalizePath (path : Bytes) : Bytes :=
  let absolute := path.head? = some SLASH
  let parts := normalizeLoop [] [] (if absolute then path.drop 1 else path)
  let result := (if absolute then [SLASH] else []) ++ [SLASH].intercalate parts
  if result = [] then [SLASH] else result

def pathUnderRoot (canonicalPath documentRoot : Bytes) : Bool :=
  let normPath := normalizePath canonicalPath
  let normRoot := normalizePath documentRoot
  let normRoot :=
    if normRoot ≠ [] ∧ normRoot.getLast? = some SLASH then normRoot.dropLast else normRoot
  if normPath = normRoot then true
  else
    normPath.length > normRoot.length ∧ normPath[normRoot.length]? = some SLASH ∧
      compareEq normPath 0 normRoot.length normRoot (zero_le_length _) = true

def contentTypeFromSuffix (path : Bytes) : Bytes :=
  match h : rfind path DOT with
  | none => ascii "application/octet-stream"
  | some dot =>
      if dot = path.length - 1 then ascii "application/octet-stream"
      else
        let ext := toLower (substrFrom path (dot + 1) (rfind_lt h))
        if ext = ascii "html" ∨ ext = ascii "htm" then ascii "text/html"
        else if ext = ascii "txt" then ascii "text/plain"
        else if ext = ascii "css" then ascii "text/css"
        else if ext = ascii "js" then ascii "application/javascript"
        else if ext = ascii "json" then ascii "application/json"
        else if ext = ascii "xml" then ascii "application/xml"
        else if ext = ascii "jpg" ∨ ext = ascii "jpeg" then ascii "image/jpeg"
        else if ext = ascii "png" then ascii "image/png"
        else if ext = ascii "gif" then ascii "image/gif"
        else if ext = ascii "svg" then ascii "image/svg+xml"
        else if ext = ascii "webp" then ascii "image/webp"
        else if ext = ascii "ico" then ascii "image/x-icon"
        else if ext = ascii "pdf" then ascii "application/pdf"
        else if ext = ascii "zip" then ascii "application/zip"
        else ascii "application/octet-stream"

/-! ## What they compute -/

theorem startsWith_length {s pre : Bytes} (h : startsWith s pre = true) :
    pre.length ≤ s.length := by
  have hlen := compareEq_length rfl h
  simpa [toLower] using hlen

theorem dropWhile_eq_drop_findIdx {α : Type*} (p : α → Bool) (s : List α) :
    s.dropWhile p = s.drop ((s.findIdx? fun c => !p c).getD s.length) := by
  induction s with
  | nil => rfl
  | cons c s ih =>
      cases hc : p c with
      | false => simp [List.findIdx?_cons, hc]
      | true =>
          rw [List.dropWhile_cons_of_pos hc, ih, List.findIdx?_cons]
          cases s.findIdx? (fun c => !p c) <;> simp [hc]

theorem trim_eq (s ws : Bytes) :
    trim s ws = (s.dropWhile ws.contains).rdropWhile ws.contains := by
  unfold trim
  split
  · rename_i h
    simp only [findFirstNotOf] at h
    rw [dropWhile_eq_drop_findIdx, h]
    simp
  · rename_i first h
    have hlt := findFirstNotOf_lt h
    obtain ⟨_, hget, _⟩ := List.findIdx?_eq_some_iff_getElem.mp h
    have hdrop : s.dropWhile ws.contains = s.drop first := by
      simp only [findFirstNotOf] at h
      rw [dropWhile_eq_drop_findIdx, h]
      rfl
    -- the last byte to keep is found in the reversed remainder
    have hmem : s[first] ∈ (s.drop first).reverse := by
      rw [List.mem_reverse, List.drop_eq_getElem_cons hlt]
      exact List.mem_cons_self
    obtain ⟨j, hj⟩ : ∃ j, (s.drop first).reverse.findIdx?
        (fun c => !ws.contains c) = some j := by
      rw [← Option.isSome_iff_exists, List.findIdx?_isSome]
      exact List.any_eq_true.mpr ⟨_, hmem, hget⟩
    have hjlt : j < (s.drop first).reverse.length :=
      (List.findIdx?_eq_some_iff_getElem.mp hj).1
    have hlast : findLastNotOf s ws = some (s.length - 1 - j) := by
      have hrev : s.reverse = (s.drop first).reverse ++ (s.take first).reverse := by
        rw [← List.reverse_append, List.take_append_drop]
      rw [findLastNotOf, hrev, List.findIdx?_append, hj]
      rfl
    simp only [List.length_reverse, List.length_drop] at hjlt
    rw [hlast]
    simp only [substr_eq]
    rw [hdrop, List.rdropWhile, dropWhile_eq_drop_findIdx, hj, Option.getD_some,
      List.drop_reverse, List.reverse_reverse, List.length_drop]
    congr 1
    omega

theorem trim_append {ws pad v : Bytes} (hpad : ∀ c ∈ pad, ws.contains c = true)
    (hhead : ∀ c, v.head? = some c → ws.contains c = false)
    (hlast : ∀ c, v.getLast? = some c → ws.contains c = false) :
    trim (pad ++ v) ws = v := by
  have hfront : (pad ++ v).dropWhile ws.contains = v := by
    rw [List.dropWhile_append_of_pos hpad]
    cases v with
    | nil => rfl
    | cons c v => rw [List.dropWhile_cons_of_neg (by simpa using hhead c rfl)]
  rw [trim_eq, hfront]
  rcases v.eq_nil_or_concat with rfl | ⟨init, c, rfl⟩
  · rfl
  · have hc := hlast c (by simp)
    rw [List.concat_eq_append, List.rdropWhile_concat_neg _ _ _ (by simpa using hc)]

theorem trim_eq_self {ws v : Bytes} (hhead : ∀ c, v.head? = some c → ws.contains c = false)
    (hlast : ∀ c, v.getLast? = some c → ws.contains c = false) : trim v ws = v := by
  have hpad : ∀ c ∈ ([] : Bytes), ws.contains c = true := fun c hc => by cases hc
  exact trim_append hpad hhead hlast

theorem trim_of_notContains {ws v : Bytes} (h : ∀ c ∈ v, ws.contains c = false) :
    trim v ws = v := by
  apply trim_eq_self
  · exact fun c hc => h c (List.mem_of_head? hc)
  · exact fun c hc => h c (List.mem_of_getLast? hc)

theorem rdropWhile_append_of_pos {p : Byte → Bool} {post : Bytes} (h : ∀ c ∈ post, p c = true)
    (s : Bytes) : (s ++ post).rdropWhile p = s.rdropWhile p := by
  rw [List.rdropWhile, List.reverse_append, List.dropWhile_append_of_pos (by simpa using h)]
  rfl

/-- Trimming takes the padding on both sides away. -/
theorem trim_pad {ws pre post : Bytes} (hpre : ∀ c ∈ pre, ws.contains c = true)
    (hpost : ∀ c ∈ post, ws.contains c = true) (s : Bytes) :
    trim (pre ++ (s ++ post)) ws = trim s ws := by
  rw [trim_eq, trim_eq, List.dropWhile_append_of_pos hpre, List.dropWhile_append]
  split_ifs with hempty
  · have hpad : post.dropWhile ws.contains = [] := List.dropWhile_eq_nil_iff.2 hpost
    rw [hpad, List.isEmpty_iff.1 hempty]
  · exact rdropWhile_append_of_pos hpost _

theorem trim_subset (s ws : Bytes) : trim s ws ⊆ s := by
  rw [trim_eq]
  intro c hc
  exact (List.dropWhile_sublist _).subset ((List.rdropWhile_prefix _ _).subset hc)

theorem trim_first {s ws : Bytes} {c : Byte} (hc : (trim s ws).head? = some c) :
    ws.contains c = false := by
  rw [trim_eq] at hc
  obtain ⟨rest, hrest⟩ := List.rdropWhile_prefix ws.contains (s.dropWhile ws.contains)
  have hhead : (s.dropWhile ws.contains).head? = some c := by
    rw [← hrest, List.head?_append, hc]
    rfl
  have hnot := List.head?_dropWhile_not ws.contains s
  rw [hhead] at hnot
  exact hnot

theorem trim_last {s ws : Bytes} {c : Byte} (hc : (trim s ws).getLast? = some c) :
    ws.contains c = false := by
  rw [trim_eq] at hc
  have hne : (s.dropWhile ws.contains).rdropWhile ws.contains ≠ [] := by
    intro hnil
    rw [hnil] at hc
    cases hc
  have hlast := List.rdropWhile_last_not ws.contains (s.dropWhile ws.contains) hne
  rw [List.getLast?_eq_getLast_of_ne_nil hne] at hc
  obtain rfl := Option.some.inj hc
  simpa using hlast

theorem contains_getLast {ws s : Bytes} (h : trim s ws = s) {c : Byte}
    (hc : s.getLast? = some c) : ws.contains c = false := by
  rw [← h] at hc
  exact trim_last hc

end CppHttpd
