import CppHttpd.Foundation.Segments
import CppHttpd.Http.Core.RequestHandlerUtils

/-!
# The file system

The kernel finds an object by walking over the components of a path from the
root, or from the working directory.  What it is given is a C string, which ends
at the first NUL byte of the `std::string` that it comes from, and it gives up
on strings that are too long and on ways that lead over too many symbolic links.
-/

namespace CppHttpd

open CppHttpd.Foundation

abbrev Inode := Nat

inductive FileKind where
  | regular
  | directory
  | other
  deriving DecidableEq, Repr

/-- The members of `struct stat` that the server reads. -/
structure Stat where
  ino : Nat
  kind : FileKind
  /-- Any of the three execution bits. -/
  executable : Bool
  size : Nat
  mtime : Int

structure FileSystem where
  root : Inode
  workingDirectory : Inode
  stat : Inode → Stat
  /-- What a name in a directory leads to, symbolic links being followed. -/
  entry : Inode → Bytes → Option Inode
  /-- The number of symbolic links that are followed for it. -/
  links : Inode → Bytes → Nat
  parent : Inode → Inode
  readable : Inode → Bool
  content : Inode → Bytes
  /-- The names `readdir` returns, in its order. -/
  names : Inode → List Bytes
  parent_directory : ∀ i, (stat (parent i)).kind = .directory

/-- The size of the longest path, with the NUL behind it. -/
def PATH_MAX : Nat := 4096

/-- So many symbolic links are followed for one path, and no more. -/
def MAXSYMLINKS : Nat := 40

/-- `s.c_str()`, as the kernel sees it. -/
def cString (s : Bytes) : Bytes := s.takeWhile (· ≠ NUL)

theorem cString_of_not_mem {s : Bytes} (h : NUL ∉ s) : cString s = s :=
  takeWhile_ne_eq_self h

theorem cString_append_of_mem {s : Bytes} (h : NUL ∈ s) (t : Bytes) :
    cString (s ++ t) = cString s := by
  induction s with
  | nil => cases h
  | cons c s ih =>
      by_cases hc : c = NUL
      · simp [cString, hc]
      · have hs : NUL ∈ s := by simpa [Ne.symm hc] using h
        simpa [cString, hc] using ih hs

theorem cString_append_of_not_mem {s : Bytes} (h : NUL ∉ s) (t : Bytes) :
    cString (s ++ t) = s ++ cString t :=
  takeWhile_ne_append h t

theorem not_mem_cString (s : Bytes) {c : Byte} (h : c ∉ s) : c ∉ cString s :=
  fun hmem => h ((List.takeWhile_sublist _).subset hmem)

namespace FileSystem

variable (fs : FileSystem)

def isDirectory (i : Inode) : Bool := (fs.stat i).kind = .directory

def lookup (i : Inode) (name : Bytes) : Option Inode :=
  if fs.isDirectory i then
    if name = [] ∨ name = ascii "." then some i
    else if name = ascii ".." then some (fs.parent i)
    else fs.entry i name
  else none

def walk : Inode → List Bytes → Option Inode
  | i, [] => some i
  | i, name :: names => (fs.lookup i name).bind fun i' => walk i' names

def start (path : Bytes) : Inode :=
  if path.head? = some SLASH then fs.root else fs.workingDirectory

/-- The symbolic links on such a way. -/
def linksOn : Inode → List Bytes → Nat
  | _, [] => 0
  | i, name :: names =>
      (if name = [] ∨ name = ascii "." ∨ name = ascii ".." then 0 else fs.links i name) +
        (fs.lookup i name).elim 0 fun i' => linksOn i' names

/-- What a path leads to, whatever its length is. -/
def target (path : Bytes) : Option Inode :=
  let path := cString path
  if path = [] then none else fs.walk (fs.start path) (path.splitOn SLASH)

/-- Neither `ENAMETOOLONG` nor `ELOOP`. -/
def Within (path : Bytes) : Prop :=
  (cString path).length < PATH_MAX ∧
    fs.linksOn (fs.start (cString path)) ((cString path).splitOn SLASH) ≤ MAXSYMLINKS

instance (path : Bytes) : Decidable (fs.Within path) := inferInstanceAs (Decidable (_ ∧ _))

/-- The object that the kernel reaches for a path. -/
def reach (path : Bytes) : Option Inode := if fs.Within path then fs.target path else none

/-- The directory that the kernel looks up the last component of a path in. -/
def reachHolder (path : Bytes) : Option Inode :=
  let path := cString path
  if path = [] then none else fs.walk (fs.start path) (path.splitOn SLASH).dropLast

/-- `stat(path.c_str(), &st)`. -/
def statPath (path : Bytes) : Option Stat := (fs.reach path).map fs.stat

/-- What a `std::ifstream` reads: a directory can be opened, but not read. -/
def readInode (i : Inode) : Option Bytes :=
  if fs.readable i then
    if (fs.stat i).kind = .directory then some [] else some (fs.content i)
  else none

def readFile (path : Bytes) : Option Bytes := (fs.reach path).bind fs.readInode

theorem reach_eq_some {path : Bytes} {i : Inode} :
    fs.reach path = some i ↔ fs.Within path ∧ fs.target path = some i := by
  simp [reach]

theorem reach_of_within {path : Bytes} (h : fs.Within path) : fs.reach path = fs.target path :=
  if_pos h

theorem target_of_reach {fs : FileSystem} {path : Bytes} {i : Inode}
    (h : fs.reach path = some i) : fs.target path = some i :=
  (fs.reach_eq_some.1 h).2

/-- Only the C string of a path counts. -/
theorem reach_congr {path path' : Bytes} (h : cString path = cString path') :
    fs.reach path = fs.reach path' := by
  have hwithin : fs.Within path ↔ fs.Within path' := by rw [Within, Within, h]
  have htarget : fs.target path = fs.target path' := by simp only [target, h]
  simp only [reach, hwithin, htarget]

theorem walk_append (i : Inode) (names names' : List Bytes) :
    fs.walk i (names ++ names') = (fs.walk i names).bind fun i' => fs.walk i' names' := by
  induction names generalizing i with
  | nil => rfl
  | cons name names ih =>
      rw [List.cons_append, walk, walk]
      cases fs.lookup i name with
      | none => rfl
      | some i' => exact ih i'

theorem walk_singleton (i : Inode) (name : Bytes) : fs.walk i [name] = fs.lookup i name := by
  rw [walk]
  cases fs.lookup i name <;> rfl

/-- The root is the only directory, and holds these files. -/
def flat (files : List (Bytes × Bytes)) : FileSystem where
  root := 0
  workingDirectory := 0
  stat i :=
    { ino := i
      kind := if i = 0 then .directory else .regular
      executable := false
      size := ((files[i - 1]?).elim [] Prod.snd).length
      mtime := 0 }
  entry _ name := (files.findIdx? fun file => file.1 = name).map (· + 1)
  links _ _ := 0
  parent _ := 0
  readable _ := true
  content i := (files[i - 1]?).elim [] Prod.snd
  names _ := files.map Prod.fst
  parent_directory _ := rfl

end FileSystem

end CppHttpd
