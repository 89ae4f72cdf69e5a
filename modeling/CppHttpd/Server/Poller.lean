import CppHttpd.Http.Connection.ConnectionManager

/-!
# The poller

`EpollPoller` on Linux is edge-triggered.  The kernel puts an fd on its ready
list when something that the fd is watched for happens to it, or when the fd is
added or modified while it is ready for what it is then watched for; a wait that
reports the fd takes it off the list, whatever is left to be read.
-/

namespace CppHttpd

open CppHttpd.Foundation

/-- The kernel's side of a connection. -/
structure Socket where
  /-- What has arrived and has not been read. -/
  unread : Bytes := []
  ended : Bool := false
  sendable : Bool := true

def Socket.readable (socket : Socket) : Bool := socket.unread ≠ [] || socket.ended

/-- `read` on a non-blocking socket. -/
def Socket.read (socket : Socket) (bufSize : Nat) : ReadResult × Socket :=
  if socket.unread ≠ [] then
    (.ok (socket.unread.take bufSize), { socket with unread := socket.unread.drop bufSize })
  else if socket.ended then (.ok [], socket)
  else (.again, socket)

structure Interest where
  wantRead : Bool
  wantWrite : Bool
  deriving DecidableEq, Repr

structure PollEvent where
  fd : Fd
  readable : Bool
  writable : Bool

/-- What happens to an fd that the interest is in. -/
def Interest.events (interest : Interest) (fd : Fd) (socket : Socket) : PollEvent :=
  { fd := fd
    readable := interest.wantRead && socket.readable
    writable := interest.wantWrite && socket.sendable }

def PollEvent.any (event : PollEvent) : Bool := event.readable || event.writable

structure Watch where
  interest : Interest
  /-- The fd is on the kernel's ready list. -/
  pending : Bool

abbrev EpollPoller := Fd → Option Watch

namespace EpollPoller

def add (poller : EpollPoller) (fd : Fd) (interest : Interest) (socket : Socket) :
    EpollPoller :=
  Function.update poller fd
    (some { interest := interest, pending := (interest.events fd socket).any })

def modify (poller : EpollPoller) (fd : Fd) (interest : Interest) (socket : Socket) :
    EpollPoller :=
  match poller fd with
  | none => poller
  | some watch =>
      Function.update poller fd (some
        { interest := interest
          pending := watch.pending || (interest.events fd socket).any })

/-- The kernel tells that something has happened to `fd`. -/
def notify (poller : EpollPoller) (fd : Fd) (about : Interest) : EpollPoller :=
  match poller fd with
  | none => poller
  | some watch =>
      if (watch.interest.wantRead && about.wantRead) ||
          (watch.interest.wantWrite && about.wantWrite) then
        Function.update poller fd (some { watch with pending := true })
      else poller

def isPending (poller : EpollPoller) (fd : Fd) : Bool :=
  match poller fd with
  | none => false
  | some watch => watch.pending

def report (poller : EpollPoller) (sockets : Fd → Socket) (fd : Fd) : Option PollEvent :=
  match poller fd with
  | none => none
  | some watch =>
      let event := watch.interest.events fd (sockets fd)
      if event.any then some event else none

/-- `wait`, with the fds that the kernel takes off its ready list. -/
def wait (poller : EpollPoller) (sockets : Fd → Socket) (batch : List Fd) :
    Option (List PollEvent × EpollPoller) :=
  if batch.Nodup ∧ batch.length ≤ 64 ∧ ∀ fd ∈ batch, poller.isPending fd then
    some (batch.filterMap (poller.report sockets), fun fd =>
      if fd ∈ batch then (poller fd).map fun watch => { watch with pending := false }
      else poller fd)
  else none

/-! ## What an operation does to the entries -/

section

variable (poller : EpollPoller) (fd : Fd)

@[simp] theorem add_self (interest : Interest) (socket : Socket) :
    poller.add fd interest socket fd =
      some { interest := interest, pending := (interest.events fd socket).any } := by
  simp [add]

theorem add_of_ne {fd' : Fd} (hne : fd' ≠ fd) (interest : Interest) (socket : Socket) :
    poller.add fd interest socket fd' = poller fd' := by
  simp [add, hne]

theorem modify_self {watch : Watch} (hwatch : poller fd = some watch) (interest : Interest)
    (socket : Socket) :
    poller.modify fd interest socket fd =
      some { interest := interest
             pending := watch.pending || (interest.events fd socket).any } := by
  simp [modify, hwatch]

theorem modify_of_ne {fd' : Fd} (hne : fd' ≠ fd) (interest : Interest) (socket : Socket) :
    poller.modify fd interest socket fd' = poller fd' := by
  unfold modify
  cases poller fd with
  | none => rfl
  | some watch => simp [hne]

theorem notify_of_ne {fd' : Fd} (hne : fd' ≠ fd) (about : Interest) :
    poller.notify fd about fd' = poller fd' := by
  unfold notify
  cases poller fd with
  | none => rfl
  | some watch =>
      dsimp only
      split_ifs
      · simp [hne]
      · rfl

theorem notify_self {watch : Watch} (hwatch : poller fd = some watch) (about : Interest) :
    poller.notify fd about fd =
      some { watch with
        pending := watch.pending || (watch.interest.wantRead && about.wantRead) ||
          (watch.interest.wantWrite && about.wantWrite) } := by
  obtain ⟨interest, pending⟩ := watch
  unfold notify
  rw [hwatch]
  dsimp only
  split_ifs with habout
  · rw [Function.update_self, Bool.or_assoc, habout, Bool.or_true]
  · simp only [Bool.not_eq_true] at habout
    rw [hwatch, Bool.or_assoc, habout, Bool.or_false]

end

end EpollPoller

end CppHttpd
