import CppHttpd.Foundation.Lines
import CppHttpd.Http.Core.Base64
import CppHttpd.Http.Handlers.AuthHandler

/-!
# Credentials

An access file that is written as it should be, with its lines in any order and
any layout, lets exactly those requests pass that bring the credentials of its
user.
-/

namespace CppHttpd

open CppHttpd.Foundation

/-! ## Lines of an access file -/

/-- A line as `parse_htaccess` looks at it behind the indentation. -/
def htaccessText (auth : HtaccessAuth) (text : Bytes) : HtaccessAuth :=
  if text = [] ∨ text.head? = some (byteOf '#') then auth
  else if text.take 9 = ascii "AuthType " then
    if ((text.drop 9).dropWhile isBlank).take 5 = ascii "Basic" then
      { auth with authTypeBasic := true }
    else auth
  else if text.take 5 = ascii "User " then
    { auth with userB64 := trim (text.drop 5) (ascii " \t") }
  else if text.take 9 = ascii "Password " then
    { auth with passwordB64 := trim (text.drop 9) (ascii " \t") }
  else auth

theorem drop_length_takeWhile (p : Byte → Bool) (s : Bytes) :
    s.drop (s.takeWhile p).length = s.dropWhile p := by
  have hdrop : (s.takeWhile p ++ s.dropWhile p).drop (s.takeWhile p).length = s.dropWhile p :=
    List.drop_left
  rwa [List.takeWhile_append_dropWhile] at hdrop

theorem drop_skipBlanks (line : Bytes) (i : Nat) :
    line.drop (skipBlanks line i) = (line.drop i).dropWhile isBlank := by
  rw [skipBlanks, ← List.drop_drop, drop_length_takeWhile]

def isLineEnd (c : Byte) : Bool := c = CR || c = LF

theorem htaccessLine_eq (auth : HtaccessAuth) (line : Bytes) :
    htaccessLine auth line =
      htaccessText auth ((line.rdropWhile isLineEnd).dropWhile isBlank) := by
  change htaccessLine auth line =
    htaccessText auth ((line.rdropWhile fun c => c = CR || c = LF).dropWhile isBlank)
  have htext (line : Bytes) : line.drop (skipBlanks line 0) = line.dropWhile isBlank :=
    drop_skipBlanks line 0
  have hcut (line : Bytes) (n : Nat) :
      line.drop (skipBlanks line 0 + n) = (line.dropWhile isBlank).drop n := by
    rw [← List.drop_drop, htext]
  have hvalue (line : Bytes) (n : Nat) : line.drop (skipBlanks line (skipBlanks line 0 + n)) =
      ((line.dropWhile isBlank).drop n).dropWhile isBlank := by
    rw [drop_skipBlanks, hcut]
  have hskip (line : Bytes) :
      (skipBlanks line 0 ≥ line.length ∨ (line)[skipBlanks line 0]? = some (byteOf '#')) ↔
        (line.dropWhile isBlank = [] ∨ (line.dropWhile isBlank).head? = some (byteOf '#')) := by
    rw [← htext, List.drop_eq_nil_iff, List.head?_drop]
  unfold htaccessLine htaccessText
  simp only [hskip, compareEq, substrFrom_eq, htext, hvalue, hcut, beq_iff_eq, dite_eq_ite]

/-! ## Access files as they are written -/

inductive AccessLine where
  | blank
  | comment (text : Bytes) (hline : LF ∉ text)
  | authType
  | user
  | password

def AccessLine.text (user password : Bytes) : AccessLine → Bytes
  | .blank => []
  | .comment text _ => byteOf '#' :: text
  | .authType => ascii "AuthType Basic"
  | .user => ascii "User " ++ encodeBase64 user
  | .password => ascii "Password " ++ encodeBase64 password

def AccessLine.set (user password : Bytes) (auth : HtaccessAuth) : AccessLine → HtaccessAuth
  | .blank => auth
  | .comment _ _ => auth
  | .authType => { auth with authTypeBasic := true }
  | .user => { auth with userB64 := encodeBase64 user }
  | .password => { auth with passwordB64 := encodeBase64 password }

structure WrittenLine where
  indent : Bytes
  line : AccessLine
  lineEnd : LineTerminator
  indent_blank : ∀ c ∈ indent, isBlank c = true

/-- The three lines that the server needs, in any order and layout. -/
structure AccessFile where
  user : Bytes
  password : Bytes
  lines : List WrittenLine
  user_ne_nil : user ≠ []
  colon_notMem_user : COLON ∉ user
  authType_mem : ∃ written ∈ lines, written.line = .authType
  user_mem : ∃ written ∈ lines, written.line = .user
  password_mem : ∃ written ∈ lines, written.line = .password

namespace AccessFile

def toBytes (file : AccessFile) : Bytes :=
  writeLines (file.lines.map fun written =>
    (written.indent ++ written.line.text file.user file.password, written.lineEnd))

end AccessFile

/-! ## Reading them -/

theorem rdropWhile_leftover (s : Bytes) (e : LineTerminator) :
    (s ++ e.leftover).rdropWhile isLineEnd = s.rdropWhile isLineEnd := by
  apply rdropWhile_append_of_pos
  apply forall_mem_of_all
  cases e <;> decide

theorem rdropWhile_eq_self {s : Bytes} (h : ∀ c ∈ s, isLineEnd c = false) :
    s.rdropWhile isLineEnd = s :=
  List.rdropWhile_eq_self_iff.2 fun hne => by simp [h _ (List.getLast_mem hne)]

theorem isLineEnd_of_isBlank {c : Byte} (h : isBlank c = true) : isLineEnd c = false := by
  simp only [isBlank, Bool.or_eq_true, decide_eq_true_eq] at h
  rcases h with rfl | rfl <;> rfl

theorem isSpace_of_isLineEnd {c : Byte} (h : isLineEnd c = true) : isSpace c = true := by
  simp only [isLineEnd, Bool.or_eq_true, decide_eq_true_eq] at h
  rcases h with rfl | rfl <;> rfl

theorem stripped_append {indent text : Bytes} (hindent : ∀ c ∈ indent, isBlank c = true)
    (htext : ∀ c ∈ text, isLineEnd c = false) (hhead : ∀ c ∈ text.head?, isBlank c = false)
    (e : LineTerminator) :
    ((indent ++ text ++ e.leftover).rdropWhile isLineEnd).dropWhile isBlank = text := by
  have hline : ∀ c ∈ indent ++ text, isLineEnd c = false := by
    intro c hc
    rcases List.mem_append.1 hc with hc | hc
    · exact isLineEnd_of_isBlank (hindent c hc)
    · exact htext c hc
  rw [rdropWhile_leftover, rdropWhile_eq_self hline, List.dropWhile_append_of_pos hindent]
  cases text with
  | nil => rfl
  | cons c text => exact List.dropWhile_cons_of_neg (by simp [hhead c rfl])

theorem isLineEnd_encodeBase64 {s : Bytes} {c : Byte} (h : c ∈ encodeBase64 s) :
    isLineEnd c = false := by
  by_contra hend
  have hspace := isSpace_of_isLineEnd (by simpa using hend)
  rw [isSpace_of_mem_encodeBase64 h] at hspace
  cases hspace

theorem trim_encodeBase64 (s : Bytes) : trim (encodeBase64 s) (ascii " \t") = encodeBase64 s := by
  have hblanks : ∀ c ∈ ascii " \t", isSpace c = true := forall_mem_of_all (by decide)
  apply trim_of_notContains
  intro c hc
  apply contains_eq_false hblanks
  simp [isSpace_of_mem_encodeBase64 hc]

theorem htaccessText_directive (user password : Bytes) (auth : HtaccessAuth) :
    htaccessText auth (AccessLine.text user password .authType) =
        AccessLine.set user password auth .authType ∧
      htaccessText auth (AccessLine.text user password .user) =
        AccessLine.set user password auth .user ∧
      htaccessText auth (AccessLine.text user password .password) =
        AccessLine.set user password auth .password := by
  refine ⟨rfl, ?_, ?_⟩
  · have htext : htaccessText auth (AccessLine.text user password .user) =
        { auth with userB64 := trim (encodeBase64 user) (ascii " \t") } := rfl
    rw [htext, trim_encodeBase64]
    rfl
  · have htext : htaccessText auth (AccessLine.text user password .password) =
        { auth with passwordB64 := trim (encodeBase64 password) (ascii " \t") } := rfl
    rw [htext, trim_encodeBase64]
    rfl

theorem isLineEnd_append {word s : Bytes} (hword : ∀ c ∈ word, isLineEnd c = false) :
    ∀ c ∈ word ++ encodeBase64 s, isLineEnd c = false := by
  intro c hc
  rcases List.mem_append.1 hc with hc | hc
  · exact hword c hc
  · exact isLineEnd_encodeBase64 hc

theorem htaccessLine_written (user password : Bytes) (auth : HtaccessAuth)
    (written : WrittenLine) :
    htaccessLine auth (written.indent ++ written.line.text user password ++
        written.lineEnd.leftover) =
      written.line.set user password auth := by
  obtain ⟨hauthType, huser, hpassword⟩ := htaccessText_directive user password auth
  have hindent := written.indent_blank
  have hword : ∀ c ∈ ascii "AuthType Basic", isLineEnd c = false :=
    forall_mem_of_all (by decide)
  have huserWord : ∀ c ∈ ascii "User ", isLineEnd c = false := forall_mem_of_all (by decide)
  have hpasswordWord : ∀ c ∈ ascii "Password ", isLineEnd c = false := forall_mem_of_all (by decide)
  rw [htaccessLine_eq]
  cases hline : written.line with
  | blank =>
      rw [stripped_append hindent (by simp [AccessLine.text]) (by simp [AccessLine.text])]
      rfl
  | comment text htext =>
      rw [rdropWhile_leftover, AccessLine.text, rdropWhile_append_cons rfl,
        List.dropWhile_append_of_pos hindent, List.dropWhile_cons_of_neg (by decide)]
      exact if_pos (Or.inr rfl)
  | authType =>
      rw [AccessLine.text, stripped_append hindent hword (by rintro c ⟨⟩; rfl)]
      exact hauthType
  | user =>
      rw [AccessLine.text,
        stripped_append hindent (isLineEnd_append huserWord) (by rintro c ⟨⟩; rfl)]
      exact huser
  | password =>
      rw [AccessLine.text,
        stripped_append hindent (isLineEnd_append hpasswordWord) (by rintro c ⟨⟩; rfl)]
      exact hpassword

theorem WrittenLine.lf_notMem (user password : Bytes) (written : WrittenLine) :
    LF ∉ written.indent ++ written.line.text user password := by
  have hindent : LF ∉ written.indent := fun hmem => by cases written.indent_blank LF hmem
  have hword {s : Bytes} : LF ∉ encodeBase64 s := fun hmem => by
    cases isLineEnd_encodeBase64 hmem
  rw [List.mem_append, not_or]
  refine ⟨hindent, ?_⟩
  have hauthType : LF ∉ ascii "AuthType Basic" := by decide
  cases written.line with
  | blank => exact List.not_mem_nil
  | comment text htext => exact fun hmem => htext ((List.mem_cons.1 hmem).resolve_left (by decide))
  | authType => exact hauthType
  | user => exact fun hmem => (List.mem_append.1 hmem).elim (by decide) hword
  | password => exact fun hmem => (List.mem_append.1 hmem).elim (by decide) hword

/-- A member that some line sets to a value, and no line to another one, has it at the end. -/
theorem AccessFile.foldl_set {β : Type*} (file : AccessFile) (member : HtaccessAuth → β)
    {value : β} {line : AccessLine}
    (hkeeps : ∀ auth l, member auth = value →
      member (AccessLine.set file.user file.password auth l) = value)
    (hsets : ∀ auth, member (AccessLine.set file.user file.password auth line) = value)
    (hmem : ∃ written ∈ file.lines, written.line = line) :
    member (file.lines.foldl (fun auth written => written.line.set file.user file.password auth)
      {}) = value := by
  apply foldl_sets member
  · exact fun auth written => hkeeps auth written.line
  · obtain ⟨written, hwritten, hline⟩ := hmem
    refine ⟨written, hwritten, fun auth => ?_⟩
    rw [hline]
    exact hsets auth

theorem AccessFile.parseHtaccess_toBytes (file : AccessFile) :
    parseHtaccess file.toBytes =
      some ⟨encodeBase64 file.user, encodeBase64 file.password, true⟩ := by
  let step (auth : HtaccessAuth) (written : WrittenLine) :=
    written.line.set file.user file.password auth
  have hlines : (getLines LF file.toBytes).foldl htaccessLine {} = file.lines.foldl step {} := by
    rw [toBytes, getLines_writeLines, List.map_map, List.foldl_map]
    · simp only [Function.comp_apply, htaccessLine_written, step]
    · intro line hline
      obtain ⟨written, -, rfl⟩ := List.mem_map.1 hline
      exact written.lf_notMem file.user file.password
  have hauthType : (file.lines.foldl step {}).authTypeBasic = true := by
    apply file.foldl_set HtaccessAuth.authTypeBasic _ (fun _ => rfl) file.authType_mem
    intro auth line hset
    cases line <;> simp [AccessLine.set, hset]
  have huser : (file.lines.foldl step {}).userB64 = encodeBase64 file.user := by
    apply file.foldl_set HtaccessAuth.userB64 _ (fun _ => rfl) file.user_mem
    intro auth line hset
    cases line <;> simp [AccessLine.set, hset]
  have hpassword : (file.lines.foldl step {}).passwordB64 = encodeBase64 file.password := by
    apply file.foldl_set HtaccessAuth.passwordB64 _ (fun _ => rfl) file.password_mem
    intro auth line hset
    cases line <;> simp [AccessLine.set, hset]
  unfold parseHtaccess
  rw [hlines]
  dsimp only
  rw [hauthType, huser, if_neg (by simp [encodeBase64_ne_nil file.user_ne_nil]), ← hauthType,
    ← huser, ← hpassword]

/-! ## The credentials -/

theorem startsWith_basic (header : Bytes) :
    startsWith header (ascii "basic ") = true ↔ toLower (header.take 6) = ascii "basic " := by
  have hpre : toLower (ascii "basic ") = ascii "basic " := by decide
  unfold startsWith
  rw [hpre, compareEq, beq_iff_eq, List.drop_zero, toLower, toLower, List.map_take]
  rfl

/-- The split at the first colon undoes the join, as there is none in the user's name. -/
theorem split_credentials_iff {credentials user password : Bytes} (huser : COLON ∉ user) :
    (match hc : find credentials COLON 0 with
      | none => AuthResult.invalidAuth
      | some colonPos =>
          if substr credentials 0 colonPos (zero_le_length _) ≠ user ∨
            substrFrom credentials (colonPos + 1) (find_lt hc) ≠ password then .invalidAuth
          else .ok) = .ok ↔
      credentials = user ++ COLON :: password := by
  split
  · rename_i hnone
    refine iff_of_false (by simp) ?_
    rintro rfl
    rw [find_append_cons huser] at hnone
    cases hnone
  · rename_i colonPos hsome
    obtain ⟨hsplit, -⟩ := find_split hsome
    have hif (p : Prop) [Decidable p] :
        (if p then AuthResult.invalidAuth else .ok) = .ok ↔ ¬ p := by
      split_ifs <;> simp [*]
    rw [hif, not_or, not_not, not_not, substr_eq, substrFrom_eq, List.drop_zero]
    constructor
    · rintro ⟨rfl, rfl⟩
      exact hsplit
    · rintro rfl
      obtain rfl := Option.some.inj ((find_append_cons huser password).symm.trans hsome)
      rw [List.take_left, ← List.drop_drop, List.drop_left]
      exact ⟨rfl, rfl⟩

theorem checkCredentials_iff (request : HttpRequest) (htaccess : HtaccessAuth)
    (huser : COLON ∉ decodeBase64 htaccess.userB64) :
    checkCredentials htaccess request = .ok ↔
      toLower ((getHeader request.headers (ascii "authorization")).take 6) = ascii "basic " ∧
        decodeBase64 ((getHeader request.headers (ascii "authorization")).drop 6) =
          decodeBase64 htaccess.userB64 ++ COLON :: decodeBase64 htaccess.passwordB64 := by
  unfold checkCredentials
  dsimp only
  by_cases hheader : getHeader request.headers (ascii "authorization") = []
  · rw [if_pos hheader, hheader]
    exact iff_of_false (by simp) (by rintro ⟨⟨⟩, -⟩)
  · rw [if_neg hheader, ← startsWith_basic]
    by_cases hbasic : startsWith (getHeader request.headers (ascii "authorization"))
        (ascii "basic ") = true
    · rw [dif_pos hbasic, and_iff_right hbasic]
      split
      · rename_i hempty
        change decodeBase64 (List.drop 6 _) = [] at hempty
        rw [hempty]
        exact iff_of_false (by simp) (by simp)
      · exact split_credentials_iff huser
    · rw [dif_neg hbasic]
      exact iff_of_false (by simp) (fun h => hbasic h.1)

/--
A request passes exactly if it brings the user and the password of the access file,
behind the name of the scheme in any letter case.
-/
theorem checkHtaccessAndAuth_iff (file : AccessFile) (fs : FileSystem) (dirPath : Bytes)
    (request : HttpRequest) (h : fs.readFile (htaccessPath dirPath) = some file.toBytes) :
    checkHtaccessAndAuth fs dirPath request = .ok ↔
      toLower ((getHeader request.headers (ascii "authorization")).take 6) = ascii "basic " ∧
        decodeBase64 ((getHeader request.headers (ascii "authorization")).drop 6) =
          file.user ++ COLON :: file.password := by
  unfold checkHtaccessAndAuth
  rw [h, Option.bind_some, file.parseHtaccess_toBytes]
  have huser : COLON ∉ decodeBase64 (encodeBase64 file.user) := by
    rw [decodeBase64_encodeBase64]
    exact file.colon_notMem_user
  have hcredentials := checkCredentials_iff request
    ⟨encodeBase64 file.user, encodeBase64 file.password, true⟩ huser
  rw [decodeBase64_encodeBase64, decodeBase64_encodeBase64] at hcredentials
  exact hcredentials

/-- An access file whose lines are indented and end in both ways. -/
def indentedAccessFile : AccessFile where
  user := ascii "bob"
  password := ascii "a:b"
  lines :=
    [⟨[TAB], .comment (ascii " users") (by decide), .lf, forall_mem_of_all (by decide)⟩,
      ⟨[], .password, .crlf, by simp⟩, ⟨[], .blank, .crlf, by simp⟩,
      ⟨[SP, SP], .user, .lf, forall_mem_of_all (by decide)⟩, ⟨[], .authType, .lf, by simp⟩]
  user_ne_nil := by decide
  colon_notMem_user := by decide
  authType_mem := by simp
  user_mem := by simp
  password_mem := by simp

theorem checkHtaccessAndAuth_iff_indented :
    checkHtaccessAndAuth (.flat [(ascii ".htaccess", indentedAccessFile.toBytes)]) (ascii "/")
      { headers := AList.singleton (ascii "authorization")
          (ascii "bASIC " ++ encodeBase64 (ascii "bob:a:b")) } = .ok :=
  (checkHtaccessAndAuth_iff indentedAccessFile _ _ _ (by rfl)).2 ⟨by decide, by decide⟩

end CppHttpd
