import CppHttpd.Http.Core.HttpResponse
import CppHttpd.Os.FileSystem

/-!
# The environment of the handlers

Everything a handler asks the operating system or the C library for.  The file
system stays as it is while one request is handled; the clock, the formats that
depend on the locale or on floating point, and CGI programs answer as they like.
-/

namespace CppHttpd

open CppHttpd.Foundation

structure CgiCall where
  path : Bytes
  environment : HeaderMap
  input : Bytes

inductive CgiOutcome where
  | pipeFailed
  | forkFailed
  | writeFailed
  | readFailed
  /-- The program was killed, or exited with a status other than zero. -/
  | exitFailed
  | exited (output : Bytes)

/-- How a call of `run_cgi` ends, if it does. -/
inductive CgiEnding where
  | returned (outcome : CgiOutcome)
  /-- `SIGPIPE` ended the server, which wrote to a program that reads no more. -/
  | terminated
  /-- `run_cgi` waits for the program for ever. -/
  | waiting

structure Environment where
  fs : FileSystem
  /-- `time(nullptr)`. -/
  now : Int
  /-- `strftime` of a time in GMT. -/
  formatHttpDate : Int → Bytes
  /-- `strptime` and `timegm`. -/
  parseHttpDate : Bytes → Option Int
  /-- `strftime` of a local time. -/
  formatMtime : Int → Bytes
  /-- `snprintf` of a size of at least one kilobyte. -/
  formatLargeSize : Nat → Bytes
  /-- The descriptor that `open` returns while those of the list are open. -/
  newFd : List Fd → Option Fd
  newFd_fresh : ∀ {used fd}, newFd used = some fd → fd ∉ used
  cgi : CgiCall → CgiEnding
  /-- The value of an `int` that nothing was written to. -/
  uninitialised : Int

/-- The next descriptor is the first above all that are open. -/
def nextFd (used : List Fd) : Fd := used.foldr max 2 + 1

theorem lt_nextFd {fd : Fd} {used : List Fd} (h : fd ∈ used) : fd < nextFd used := by
  induction used with
  | nil => cases h
  | cons first used ih =>
      rw [nextFd, List.foldr_cons]
      rcases List.mem_cons.1 h with rfl | h
      · exact Nat.lt_succ_of_le (le_max_left _ _)
      · exact (ih h).trans_le (Nat.succ_le_succ (le_max_right _ _))

/-- An environment in which every call succeeds, and no time passes. -/
def Environment.still (fs : FileSystem) (cgi : CgiCall → CgiOutcome) : Environment where
  fs := fs
  now := 0
  formatHttpDate _ := ascii "Thu, 01 Jan 1970 00:00:00 GMT"
  parseHttpDate _ := none
  formatMtime _ := ascii "1970-01-01 00:00"
  formatLargeSize bytes := toDecimal (bytes / 1024) ++ ascii ".0K"
  newFd used := some (nextFd used)
  newFd_fresh := by
    rintro used fd ⟨⟩
    exact fun hmem => (lt_nextFd hmem).ne rfl
  cgi call := .returned (cgi call)
  uninitialised := 0

/-- What a response was made from. -/
inductive Access where
  | served (i : Inode)
  | listed (i : Inode)
  | executed (i : Inode)
  deriving DecidableEq, Repr

/-- What handling a request changes. -/
structure OsState where
  openFds : List Fd := []
  accesses : List Access := []

/-- Why a call does not return. -/
inductive NoReturn where
  | throws (e : StdException)
  /-- A signal ends the process. -/
  | terminated
  | waiting
  deriving DecidableEq, Repr

/-- A call that may not return; what it has done before stays done. -/
abbrev Call (α : Type) := OsState → Except NoReturn α × OsState

namespace OsState

/-- `open(path.c_str(), O_RDONLY)`. -/
def openFile (env : Environment) (path : Bytes) (s : OsState) : Option Fd × OsState :=
  match env.fs.reach path with
  | none => (none, s)
  | some i =>
      if env.fs.readable i then
        match env.newFd s.openFds with
        | none => (none, s)
        | some fd => (some fd,
            { openFds := fd :: s.openFds, accesses := .served i :: s.accesses })
      else (none, s)

def closeFile (fd : Fd) (s : OsState) : OsState :=
  { s with openFds := s.openFds.erase fd }

end OsState

end CppHttpd
