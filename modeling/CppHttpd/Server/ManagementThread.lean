import CppHttpd.Http.Core.HttpResponse

/-!
# Accepting until shutdown

Both modes accept connections in a thread of its own, which waits for the next
one or for the shutdown.  Connections are told apart by the order in which they
were accepted, since a descriptor is used again after it was closed.
-/

namespace CppHttpd

open CppHttpd.Foundation

/-- An accepted connection, numbered in the order of the calls of `accept`. -/
structure Client where
  number : Nat
  fd : Fd
  clientIp : Bytes
  deriving DecidableEq, Repr

/-- How far `management_thread_func` is. -/
inductive Management where
  | listening
  /-- `shutdown` was entered and `accepting_connections` is false. -/
  | stored
  | done
  | inputEnded
  deriving DecidableEq, Repr

/-- How `select` returns in `wait_for_accept_or_shutdown`. -/
inductive SelectResult where
  | interrupted
  | failed
  | ready (listenReadable : Bool)

/-! ## Connections in a list -/

def occurrences (number : Nat) (clients : List Client) : Nat :=
  clients.countP (·.number = number)

@[simp] theorem occurrences_nil (number : Nat) : occurrences number [] = 0 := rfl

@[simp] theorem occurrences_append (number : Nat) (clients clients' : List Client) :
    occurrences number (clients ++ clients') =
      occurrences number clients + occurrences number clients' := List.countP_append

theorem occurrences_singleton (number : Nat) (client : Client) :
    occurrences number [client] = if client.number = number then 1 else 0 := by
  simp [occurrences, List.countP_singleton]

theorem occurrences_cons (number : Nat) (client : Client) (clients : List Client) :
    occurrences number (client :: clients) =
      occurrences number [client] + occurrences number clients :=
  occurrences_append number [client] clients

end CppHttpd
