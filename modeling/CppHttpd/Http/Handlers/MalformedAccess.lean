import CppHttpd.Http.Handlers.BasicAuth

/-!
# Malformed access files

`decode_base64` reports a text that is not base64 by the empty string, and a
password that is not given is the empty string as well.  The credentials of a
request are compared with whatever came out of the file.
-/

namespace CppHttpd

open CppHttpd.Foundation

/-! ## What a file says -/

/-- The lines without their indentation and their ends. -/
def directives (content : Bytes) : List Bytes :=
  (getLines LF content).map fun line => (line.rdropWhile isLineEnd).dropWhile isBlank

def isAuthTypeBasic (text : Bytes) : Bool :=
  text.take 9 = ascii "AuthType " ∧ ((text.drop 9).dropWhile isBlank).take 5 = ascii "Basic"

def userOf (text : Bytes) : Option Bytes :=
  if text.take 5 = ascii "User " then some (trim (text.drop 5) (ascii " \t")) else none

def passwordOf (text : Bytes) : Option Bytes :=
  if text.take 9 = ascii "Password " then some (trim (text.drop 9) (ascii " \t")) else none

def userValues (content : Bytes) : List Bytes := (directives content).filterMap userOf

def passwordValues (content : Bytes) : List Bytes := (directives content).filterMap passwordOf

/-- The value of the last line that gives one. -/
def effectiveValue (values : List Bytes) : Bytes := values.getLast?.getD []

/-- Groups of four characters, the last of which may be padded. -/
structure IsBase64 (s : Bytes) : Prop where
  chars : ∃ chars pad, s = chars ++ List.replicate pad (byteOf '=') ∧ pad ≤ 2 ∧
    ∀ c ∈ chars, base64CharValue c ≠ none
  groups : 4 ∣ s.length

/-- A file that asks for a user, but does not say properly for whom. -/
structure Malformed (content : Bytes) : Prop where
  authType : ∃ text ∈ directives content, isAuthTypeBasic text = true
  user : ∃ value ∈ userValues content, value ≠ []
  broken : ¬ IsBase64 (effectiveValue (userValues content)) ∨ passwordValues content = [] ∨
    ¬ IsBase64 (effectiveValue (passwordValues content))

/-! ## What is read from it -/

theorem head?_of_take {text word : Bytes} {n : Nat} (hword : word ≠ [])
    (h : text.take n = word) : text.head? = word.head? := by
  rw [← h, List.head?_take, if_neg]
  rintro rfl
  exact hword h.symm

theorem userOf_of_head {text : Bytes} (h : text.head? ≠ some (byteOf 'U')) :
    userOf text = none := by
  apply if_neg
  intro htake
  exact h (head?_of_take (by decide) htake)

theorem passwordOf_of_head {text : Bytes} (h : text.head? ≠ some (byteOf 'P')) :
    passwordOf text = none := by
  apply if_neg
  intro htake
  exact h (head?_of_take (by decide) htake)

theorem isAuthTypeBasic_of_head {text : Bytes} (h : text.head? ≠ some (byteOf 'A')) :
    isAuthTypeBasic text = false := by
  apply decide_eq_false
  rintro ⟨htake, -⟩
  exact h (head?_of_take (by decide) htake)

/-- The directives are told apart by their first letters. -/
theorem htaccessText_eq (auth : HtaccessAuth) (text : Bytes) :
    htaccessText auth text =
      { userB64 := (userOf text).getD auth.userB64
        passwordB64 := (passwordOf text).getD auth.passwordB64
        authTypeBasic := auth.authTypeBasic || isAuthTypeBasic text } := by
  unfold htaccessText
  split_ifs with hskip hauth hbasic huser hpassword
  · have hhead : text.head? = none ∨ text.head? = some (byteOf '#') :=
      hskip.imp_left fun hnil => by rw [hnil]; rfl
    rw [userOf_of_head, passwordOf_of_head, isAuthTypeBasic_of_head, Bool.or_false]
    · rfl
    all_goals rcases hhead with h | h <;> rw [h] <;> decide
  · have hhead : text.head? = some (byteOf 'A') := head?_of_take (by decide) hauth
    have hbasic' : isAuthTypeBasic text = true := decide_eq_true ⟨hauth, hbasic⟩
    rw [userOf_of_head, passwordOf_of_head, hbasic', Bool.or_true]
    · rfl
    all_goals rw [hhead]; decide
  · have hhead : text.head? = some (byteOf 'A') := head?_of_take (by decide) hauth
    have hbasic' : isAuthTypeBasic text = false := decide_eq_false fun h => hbasic h.2
    rw [userOf_of_head, passwordOf_of_head, hbasic', Bool.or_false]
    · rfl
    all_goals rw [hhead]; decide
  · have hhead : text.head? = some (byteOf 'U') := head?_of_take (by decide) huser
    rw [passwordOf_of_head, isAuthTypeBasic_of_head, Bool.or_false, userOf, if_pos huser]
    · rfl
    all_goals rw [hhead]; decide
  · have hhead : text.head? = some (byteOf 'P') := head?_of_take (by decide) hpassword
    rw [userOf_of_head, isAuthTypeBasic_of_head, Bool.or_false, passwordOf, if_pos hpassword]
    · rfl
    all_goals rw [hhead]; decide
  · have hbasic : isAuthTypeBasic text = false := decide_eq_false fun h => hauth h.1
    rw [userOf, if_neg huser, passwordOf, if_neg hpassword, hbasic, Bool.or_false]
    rfl

theorem foldl_htaccessText (texts : List Bytes) (auth : HtaccessAuth) :
    texts.foldl htaccessText auth =
      { userB64 := ((texts.filterMap userOf).getLast?).getD auth.userB64
        passwordB64 := ((texts.filterMap passwordOf).getLast?).getD auth.passwordB64
        authTypeBasic := auth.authTypeBasic || texts.any isAuthTypeBasic } := by
  have huser := foldl_last HtaccessAuth.userB64 userOf
    (f := htaccessText) (fun b a => by rw [htaccessText_eq]) texts auth
  have hpassword := foldl_last HtaccessAuth.passwordB64 passwordOf
    (f := htaccessText) (fun b a => by rw [htaccessText_eq]) texts auth
  have hbasic : (texts.foldl htaccessText auth).authTypeBasic =
      (auth.authTypeBasic || texts.any isAuthTypeBasic) := by
    clear huser hpassword
    induction texts generalizing auth with
    | nil => simp
    | cons text texts ih =>
        rw [List.foldl_cons, ih, htaccessText_eq, List.any_cons, Bool.or_assoc]
  rw [← huser, ← hpassword, ← hbasic]

theorem parseHtaccess_eq (content : Bytes) :
    parseHtaccess content =
      if (directives content).any isAuthTypeBasic = true ∧
          effectiveValue (userValues content) ≠ [] then
        some ⟨effectiveValue (userValues content), effectiveValue (passwordValues content), true⟩
      else none := by
  have hfold : (getLines LF content).foldl htaccessLine {} =
      (directives content).foldl htaccessText {} := by
    rw [directives, List.foldl_map]
    congr 1
    funext auth line
    exact htaccessLine_eq auth line
  have hread (basic : Bool) (user password : Bytes) :
      (if !basic || user = [] then none else some (HtaccessAuth.mk user password basic)) =
        if basic = true ∧ user ≠ [] then some ⟨user, password, true⟩ else none := by
    cases basic <;> by_cases huser : user = [] <;> simp [huser]
  unfold parseHtaccess
  rw [hfold, foldl_htaccessText, Bool.false_or]
  exact hread _ _ _

/-! ## What is let through -/

theorem checkCredentials_colon {htaccess : HtaccessAuth}
    (hcolon : COLON ∈ decodeBase64 htaccess.userB64) (request : HttpRequest) :
    checkCredentials htaccess request ≠ .ok := by
  unfold checkCredentials
  dsimp only
  split_ifs with hheader hbasic hempty
  · simp
  · simp
  · split
    · simp
    · rename_i colonPos hfound
      -- the name that the client gives ends at its first colon
      rw [if_pos]
      · simp
      · left
        intro huser
        obtain ⟨-, hfirst⟩ := find_split hfound
        rw [← huser] at hcolon
        exact hfirst (by simpa using hcolon)
  · simp

/-- The header that carries a user and a password. -/
def basicHeader (user password : Bytes) : HttpRequest :=
  { headers := AList.singleton (ascii "authorization")
      (ascii "Basic " ++ encodeBase64 (user ++ COLON :: password)) }

theorem checkCredentials_basicHeader {htaccess : HtaccessAuth}
    (hcolon : COLON ∉ decodeBase64 htaccess.userB64) :
    checkCredentials htaccess (basicHeader (decodeBase64 htaccess.userB64)
      (decodeBase64 htaccess.passwordB64)) = .ok := by
  rw [checkCredentials_iff _ _ hcolon]
  have hheader (user password : Bytes) :
      getHeader (basicHeader user password).headers (ascii "authorization") =
        ascii "Basic " ++ encodeBase64 (user ++ COLON :: password) := rfl
  have hscheme (t : Bytes) : (ascii "Basic " ++ t).take 6 = ascii "Basic " ∧
      (ascii "Basic " ++ t).drop 6 = t := ⟨rfl, rfl⟩
  rw [hheader, (hscheme _).1, (hscheme _).2, decodeBase64_encodeBase64]
  exact ⟨by decide, rfl⟩

/-- A malformed access file lets nobody in exactly if the name it gives has a colon, which no
client can send. -/
theorem malformed_failsClosed_iff (fs : FileSystem) (dirPath : Bytes) {content : Bytes}
    (hfile : fs.readFile (htaccessPath dirPath) = some content) :
    (Malformed content → ∀ request, checkHtaccessAndAuth fs dirPath request ≠ .ok) ↔
      (Malformed content → COLON ∈ decodeBase64 (effectiveValue (userValues content))) := by
  apply imp_congr_right
  intro hmalformed
  have hbasic : (directives content).any isAuthTypeBasic = true :=
    List.any_eq_true.2 hmalformed.authType
  unfold checkHtaccessAndAuth
  rw [hfile, Option.bind_some, parseHtaccess_eq]
  by_cases huser : effectiveValue (userValues content) = []
  · rw [if_neg fun h => h.2 huser]
    apply iff_of_false
    · intro hclosed
      exact hclosed {} rfl
    · rw [huser]
      decide
  · rw [if_pos ⟨hbasic, huser⟩]
    constructor
    · intro hclosed
      by_contra hcolon
      have hgranted : checkCredentials
          ⟨effectiveValue (userValues content), effectiveValue (passwordValues content), true⟩
          (basicHeader _ _) = .ok := checkCredentials_basicHeader hcolon
      exact hclosed _ hgranted
    · intro hcolon request
      exact checkCredentials_colon hcolon request

/-- No password, and one that is not base64. -/
def unfinishedAccess : Bytes := ascii "AuthType Basic\nUser Ym9i\n"

def garbledAccess : Bytes := ascii "AuthType Basic\nUser Ym9i\nPassword s3cret!\n"

theorem malformed_failsClosed_iff_unfinished :
    (Malformed unfinishedAccess → ∀ request, checkHtaccessAndAuth
        (.flat [(ascii ".htaccess", unfinishedAccess)]) (ascii "/") request ≠ .ok) ↔
      (Malformed unfinishedAccess →
        COLON ∈ decodeBase64 (effectiveValue (userValues unfinishedAccess))) :=
  malformed_failsClosed_iff (.flat [(ascii ".htaccess", unfinishedAccess)]) (ascii "/") (by rfl)

/-- The name of the user and an empty password are enough. -/
theorem malformed_access_granted :
    Malformed unfinishedAccess ∧ Malformed garbledAccess ∧
      checkHtaccessAndAuth (.flat [(ascii ".htaccess", unfinishedAccess)]) (ascii "/")
        (basicHeader (ascii "bob") []) = .ok ∧
      checkHtaccessAndAuth (.flat [(ascii ".htaccess", garbledAccess)]) (ascii "/")
        (basicHeader (ascii "bob") []) = .ok := by
  refine ⟨⟨?_, ?_, .inr (.inl (by decide))⟩, ⟨?_, ?_, .inr (.inr ?_)⟩, by decide,
    by decide⟩
  · exact ⟨ascii "AuthType Basic", by decide, by decide⟩
  · exact ⟨ascii "Ym9i", by decide, by decide⟩
  · exact ⟨ascii "AuthType Basic", by decide, by decide⟩
  · exact ⟨ascii "Ym9i", by decide, by decide⟩
  · intro hvalid
    have hgroups := hvalid.groups
    revert hgroups
    decide

end CppHttpd
