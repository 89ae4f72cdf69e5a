import CppHttpd.Http.Routing.VHostResolver
import CppHttpd.Os.FileSystem

/-!
# The configuration

`load_config` reads one line after the other.  A comment ends a line early, a
block holds the lines of one virtual host, and a number that is not positive ends
the reading.
-/

namespace CppHttpd

open CppHttpd.Foundation

inductive Config.Mode where
  | Select
  | Threads
  deriving DecidableEq, Repr

@[ext]
structure Config where
  listenPort : Int := 8080
  virtualHosts : List VirtualHost := []
  mode : Config.Mode := .Threads
  nSelectLoops : Int := 0
  nThreads : Int := 4
  timeoutSeconds : Int := 10
  logFile : Bytes := []
  tlsCertFile : Bytes := []
  tlsKeyFile : Bytes := []
  tlsPort : Int := 4443

/-! ## Lines -/

def stripComment (s : Bytes) : Bytes :=
  let before := match find s (byteOf '#') 0 with
    | none => s
    | some hash => substr s 0 hash (zero_le_length _)
  trim before

/-- `s.find_first_of(set)`. -/
def findFirstOf (s set : Bytes) : Option Nat := s.findIdx? set.contains

theorem findFirstOf_lt {s set : Bytes} {i : Nat} (h : findFirstOf s set = some i) :
    i < s.length :=
  (List.findIdx?_eq_some_iff_getElem.mp h).1

/-- The key and the value; `none` is a line without a word. -/
def splitFirstWord (line : Bytes) : Option (Bytes × Bytes) :=
  match h : findFirstOf line (ascii " \t") with
  | none =>
      let key := trim line
      if key = [] then none else some (key, [])
  | some space =>
      some (trim (substr line 0 space (zero_le_length _)),
        trim (substrFrom line (space + 1) (findFirstOf_lt h)))

/-! ## Numbers -/

/-- Where `strtol` stops reading. -/
def numeralEnd (s : Bytes) : Nat :=
  let blanks := (s.takeWhile isSpace).length
  let sign := if s[blanks]? = some 43 ∨ s[blanks]? = some 45 then 1 else 0
  blanks + sign + (readDigits s).2.length

/-- `std::stoi` of a 32-bit `int`, with the position behind the number. -/
def stoi (s : Bytes) : Except StdException (Int × Nat) :=
  let (negative, digits) := readDigits s
  if digits = [] then .error .invalidArgument
  else
    let n : Int := if negative then -digitsValue digits else digitsValue digits
    if n < -2 ^ 31 ∨ 2 ^ 31 ≤ n then .error .outOfRange else .ok (n, numeralEnd s)

def parsePositiveInt (value : Bytes) : Option Int :=
  if value = [] then none
  else
    match stoi value with
    | .error _ => none
    | .ok (n, pos) => if n ≤ 0 ∨ pos ≠ value.length then none else some n

/-! ## The file -/

/-- `out.virtual_hosts.back()` is changed. -/
def Config.updateLastHost (f : VirtualHost → VirtualHost) (out : Config) : Config :=
  { out with virtualHosts := out.virtualHosts.modify (out.virtualHosts.length - 1) f }

def hostLine (key value : Bytes) (out : Config) : Config :=
  if key = ascii "DocumentRoot" then
    out.updateLastHost fun vhost => { vhost with documentRoot := value }
  else if key = ascii "ServerName" then
    out.updateLastHost fun vhost => { vhost with serverName := value }
  else out

/-- `none` is a number that is not positive. -/
def directiveLine (key value : Bytes) (out : Config) : Option Config :=
  if key = ascii "Listen" then
    (parsePositiveInt value).map fun port => { out with listenPort := port }
  else if key = ascii "nThreads" then
    (parsePositiveInt value).map fun n => { out with mode := .Threads, nThreads := n }
  else if key = ascii "nSelectLoops" then
    (parsePositiveInt value).map fun n => { out with mode := .Select, nSelectLoops := n }
  else if key = ascii "Timeout" then
    (parsePositiveInt value).map fun n => { out with timeoutSeconds := n }
  else if key = ascii "LogFile" then some { out with logFile := value }
  else if key = ascii "TLSCertFile" then some { out with tlsCertFile := value }
  else if key = ascii "TLSKeyFile" then some { out with tlsKeyFile := value }
  else if key = ascii "TLSPort" then
    (parsePositiveInt value).map fun n => { out with tlsPort := n }
  else some out

/-- One turn of the loop; `none` is the return from within it. -/
def configLine (inVirtualHost : Bool) (out : Config) (line : Bytes) : Option (Bool × Config) :=
  let normalized := stripComment line
  if normalized = [] then some (inVirtualHost, out)
  else if inVirtualHost then
    if findSub (ascii "</VirtualHost>") normalized = some 0 then some (false, out)
    else
      match splitFirstWord normalized with
      | none => some (true, out)
      | some (key, value) => some (true, hostLine key value out)
  else if findSub (ascii "<VirtualHost") normalized = some 0 then
    some (true, { out with virtualHosts := out.virtualHosts ++ [⟨[], []⟩] })
  else
    match splitFirstWord normalized with
    | none => some (false, out)
    | some (key, value) => (directiveLine key value out).map (false, ·)

/-- Whether the configuration is good, and what was read of it. -/
def configLoop (inVirtualHost : Bool) (out : Config) : List Bytes → Bool × Config
  | [] => (!inVirtualHost, out)
  | line :: lines =>
      match configLine inVirtualHost out line with
      | none => (false, out)
      | some (inVirtualHost, out) => configLoop inVirtualHost out lines

def loadConfig (fs : FileSystem) (path : Bytes) (out : Config) : Bool × Config :=
  match fs.readFile path with
  | none => (false, out)
  | some content => configLoop false out (getLines LF content)

end CppHttpd
