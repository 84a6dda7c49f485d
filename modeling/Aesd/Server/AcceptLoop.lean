import Aesd.ProofKit.Run
import Aesd.ProofKit.Slist

/-! The loop of `main` that accepts connections, gives each of them a thread and an entry in the
list of connections, and joins the threads that have ended, and the loop that joins the others when
the server ends. -/

namespace Aesd.Server

open ProofKit

/-- `struct cl_entry` without the link to the next entry. Connections are numbered in the order in
which they are accepted, and `thread` is the number of the connection whose thread was created, or
`none` when `pthread_create` failed. -/
structure ClEntry where
  descriptor : Int
  isActive : Bool
  thread : Option Nat
  deriving DecidableEq, Repr

/-- The entries that are not freed. -/
abbrev ClHeap := Heap Nat (Node Nat ClEntry)

/-- The variables of the loop, and a history: how many connections were accepted, and the threads
that were joined. -/
structure MainLoop where
  heap : ClHeap
  head : Option Nat
  tail : Option Nat
  abort : Bool
  accepted : Nat
  joined : List (Option Nat)

/-- What `main` meets in one iteration: the result of `accept` and whether `errno` says that no
connection is pending, the address that `malloc` returns, the result of `pthread_create`, and for
the thread of the entry at an address whether it has ended when the loop looks at the entry, the
value that it left, and the result of `pthread_join`. Descriptor 0 is the standard input. -/
structure Iteration where
  connFd : Int
  notStdin : connFd ≠ 0
  again : Bool
  addr : Nat
  error : Int
  ended : Nat → Bool
  retval : Nat → Int
  joinError : Nat → Int

def eagain : Int := 11

/-- The stores that a thread makes to its entry when it ends. -/
def threadEnds (heap : ClHeap) (p : Nat) (retval : Int) : ClHeap :=
  match heap.lookup p with
  | some node =>
    if node.data.thread.isSome then
      heap.insert p { node with data := { node.data with isActive := false, descriptor := retval } }
    else heap
  | none => heap

namespace MainLoop

/-- The loop before its first iteration. -/
def start : MainLoop := ⟨∅, none, none, false, 0, []⟩

/-- The entry at `p` goes after `tail`, or to the head of the list when `tail` is `NULL`. -/
def link (heap : ClHeap) (head tail : Option Nat) (p : Nat) : Option (ClHeap × Option Nat) :=
  match tail with
  | some tail => (Slist.insertAfter heap tail p).map (·, head)
  | none => Slist.insertHead heap head p

/-- The new connection gets its thread and goes to the end of the list. There is no result when an
entry that is not live is touched. -/
def accept (s : MainLoop) (it : Iteration) : Option MainLoop :=
  if 0 < it.connFd then do
    let thread := if it.error = 0 then some s.accepted else none
    let heap ← s.heap.alloc it.addr ⟨⟨it.connFd, true, thread⟩, none⟩
    let abort := s.abort || (it.error < 0 && it.error != eagain)
    let (heap, head) ← link heap s.head s.tail it.addr
    return { s with heap, head, tail := some it.addr, abort, accepted := s.accepted + 1 }
  else some s

/-- The loop over the entries, with the number of entries that it may still visit. There is no
result when it does not end, or when an entry that is not live is touched. -/
def sweep (it : Iteration) : Nat → MainLoop → Option Nat → Option Nat → Option MainLoop
  | _, s, _, none => some s
  | 0, _, _, some _ => none
  | n + 1, s, previous, some current => do
    let heap := if it.ended current then threadEnds s.heap current (it.retval current) else s.heap
    let node ← heap.lookup current
    if node.data.isActive then
      let next ← Slist.next heap current
      sweep it n { s with heap } (some current) next
    else
      let joined := s.joined ++ [node.data.thread]
      let abort := s.abort || it.joinError current < 0 || node.data.descriptor < 0
      let (heap, head) ← Slist.remove heap s.head current
      let heap ← heap.free current
      let next ← match previous with
        | some previous => Slist.next heap previous
        | none => some head
      sweep it n { s with heap, head, abort, joined } previous next

def iterate (s : MainLoop) (it : Iteration) : Option MainLoop :=
  if it.connFd < 0 ∧ it.again = false then some { s with abort := true }
  else do
    let s ← s.accept it
    sweep it s.heap.keys.length s none s.head

/-- The loop at the end, with the number of entries that it may still visit. `pthread_join` returns
once the thread has ended, with the value in `retval`. -/
def drainFrom (retval : Nat → Int) : Nat → MainLoop → Option MainLoop
  | n, s =>
    match s.head, n with
    | none, _ => some s
    | some _, 0 => none
    | some p, n + 1 => do
      let heap := threadEnds s.heap p (retval p)
      let node ← heap.lookup p
      let joined := s.joined ++ [node.data.thread]
      let abort := s.abort || node.data.descriptor < 0
      let head ← Slist.removeHead heap s.head
      let heap ← heap.free p
      drainFrom retval n { s with heap, head, abort, joined }

/-- The loop at the end. -/
def drain (s : MainLoop) (retval : Nat → Int) : Option MainLoop :=
  drainFrom retval s.heap.keys.length s

def Step (s : MainLoop) (it : Iteration) (s' : MainLoop) : Prop :=
  s.abort = false ∧ s.iterate it = some s'

end MainLoop

end Aesd.Server
