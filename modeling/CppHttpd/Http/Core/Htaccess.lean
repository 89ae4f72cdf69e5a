import CppHttpd.Http.Core.RequestHandlerUtils

/-!
# Access files

A `.htaccess` file names one user and one password, both in base64.  Every line
is read on its own, and later lines override earlier ones.
-/

namespace CppHttpd

open CppHttpd.Foundation

/-! ## Base64 -/

def base64CharValue (c : Byte) : Option Nat :=
  if byteOf 'A' ≤ c ∧ c ≤ byteOf 'Z' then some (c.toNat - (byteOf 'A').toNat)
  else if byteOf 'a' ≤ c ∧ c ≤ byteOf 'z' then some (c.toNat - (byteOf 'a').toNat + 26)
  else if byteOf '0' ≤ c ∧ c ≤ byteOf '9' then some (c.toNat - (byteOf '0').toNat + 52)
  else if c = byteOf '+' then some 62
  else if c = byteOf '/' then some 63
  else none

/-- The `int` that bits are shifted into keeps its lowest 32. -/
def decodeBase64Loop (bits : Nat) (value : UInt32) (out : Bytes) : Bytes → Bytes
  | [] => out
  | c :: rest =>
      if isSpace c ∨ c = byteOf '=' then decodeBase64Loop bits value out rest
      else
        match base64CharValue c with
        | none => []
        | some v =>
            let value := value <<< 6 ||| UInt32.ofNat v
            let bits := bits + 6
            if bits ≥ 8 then
              decodeBase64Loop (bits - 8) value
                (out ++ [(value >>> UInt32.ofNat (bits - 8)).toUInt8]) rest
            else decodeBase64Loop bits value out rest

def decodeBase64 (s : Bytes) : Bytes := decodeBase64Loop 0 0 [] s

/-! ## The file -/

structure HtaccessAuth where
  userB64 : Bytes := []
  passwordB64 : Bytes := []
  authTypeBasic : Bool := false

def isBlank (c : Byte) : Bool := c = SP || c = TAB

def skipBlanks (line : Bytes) (i : Nat) : Nat :=
  i + ((line.drop i).takeWhile isBlank).length

theorem skipBlanks_le {line : Bytes} {i : Nat} (h : i ≤ line.length) :
    skipBlanks line i ≤ line.length := by
  have hle := (List.takeWhile_sublist (l := line.drop i) isBlank).length_le
  simp only [List.length_drop] at hle
  unfold skipBlanks
  omega

def htaccessLine (auth : HtaccessAuth) (line : Bytes) : HtaccessAuth :=
  let line := line.rdropWhile fun c => c = CR || c = LF
  let i := skipBlanks line 0
  have hi : i ≤ line.length := skipBlanks_le (Nat.zero_le _)
  if i ≥ line.length ∨ (line)[i]? = some (byteOf '#') then auth
  else if h : compareEq line i 9 (ascii "AuthType ") hi = true then
    let j := skipBlanks line (i + 9)
    have hj : j ≤ line.length := skipBlanks_le (compareEq_length (by decide) h)
    if compareEq line j 5 (ascii "Basic") hj then { auth with authTypeBasic := true }
    else auth
  else if h : compareEq line i 5 (ascii "User ") hi = true then
    { auth with
      userB64 := trim (substrFrom line (i + 5) (compareEq_length (by decide) h)) (ascii " \t") }
  else if h : compareEq line i 9 (ascii "Password ") hi = true then
    { auth with
      passwordB64 :=
        trim (substrFrom line (i + 9) (compareEq_length (by decide) h)) (ascii " \t") }
  else auth

/-- `parse_htaccess` of a file with this content. -/
def parseHtaccess (content : Bytes) : Option HtaccessAuth :=
  let auth := (getLines LF content).foldl htaccessLine {}
  if !auth.authTypeBasic || auth.userB64 = [] then none else some auth

end CppHttpd
