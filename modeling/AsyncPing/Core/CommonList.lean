import AsyncPing.Library.Machine
import Mathlib.Logic.Function.Basic

/-!
`ConcurrentDequeue` (`common/CommonList.h`) with its nodes and pointers. The code
is cut where other threads can run in between: what is done under the lock is one
piece, and so is what comes before and after it. Every use of a node goes through
the accessors, which fault where the program has undefined behaviour and enter
the access in the trace. The trace is history only; no code reads it.
-/
namespace AsyncPing

/-- Addresses of nodes (`DequeueNode<T> *`). -/
abbrev NodePtr := Nat

structure DequeueNode (T : Type) where
  data : T
  next : Option NodePtr
  prev : Option NodePtr

/-- `linked` and `unlinked` are entered with the data of the node at that moment;
`made` is a node that a caller of the node overloads brings along; `called` has
the value that is to be pushed, or none for a pop. -/
inductive DequeueEvent (Thr T : Type)
  | called (thread : Thr) (value : Option T)
  | access (thread : Thr) (node : NodePtr)
  | made (node : NodePtr)
  | allocated (thread : Thr) (node : NodePtr)
  | deleted (thread : Thr) (node : NodePtr)
  | linked (thread : Thr) (node : NodePtr) (data : T)
  | unlinked (thread : Thr) (node : NodePtr) (data : T)
  | returned (thread : Thr) (result : Bool) (ret : Option T)

/-- A node is used or deleted that is not there, a null pointer is followed, or a
loop is cut off before its end. -/
inductive NodeFault
  | dead (node : NodePtr)
  | null
  | outOfFuel
  deriving DecidableEq

structure ConcurrentDequeue (Thr T : Type) where
  nodes : NodePtr → Option (DequeueNode T)
  head : NodePtr
  tail : NodePtr
  trace : List (DequeueEvent Thr T)

abbrev NodeCode (Thr T α : Type) := Exec NodeFault (ConcurrentDequeue Thr T) α

namespace ConcurrentDequeue
variable {Thr T : Type}

def log (q : ConcurrentDequeue Thr T) (e : DequeueEvent Thr T) : ConcurrentDequeue Thr T :=
  { q with trace := e :: q.trace }

def setNode (q : ConcurrentDequeue Thr T) (node : NodePtr) (cell : Option (DequeueNode T)) :
    ConcurrentDequeue Thr T :=
  { q with nodes := Function.update q.nodes node cell }

/-! ## Accessors -/

section accessors
variable (me : Thr)

def readNode (node : NodePtr) : NodeCode Thr T (DequeueNode T) := do
  let q ← get
  match q.nodes node with
  | none => throw (.dead node)
  | some cell =>
    modify (·.log (.access me node))
    return cell

def writeNode (node : NodePtr) (f : DequeueNode T → DequeueNode T) : NodeCode Thr T Unit := do
  let cell ← readNode me node
  modify (·.setNode node (some (f cell)))

/-- Follow a pointer to a node. -/
def derefNode : Option NodePtr → NodeCode Thr T NodePtr
  | none => throw .null
  | some node => return node

/-- `new DequeueNode<T>()`; the address comes from outside. -/
def newNode [Inhabited T] (node : NodePtr) : NodeCode Thr T Unit :=
  modify fun q => (q.log (.allocated me node)).setNode node (some ⟨default, none, none⟩)

def deleteNode (node : NodePtr) : NodeCode Thr T Unit := do
  let q ← get
  match q.nodes node with
  | none => throw (.dead node)
  | some _ => modify fun q => (q.log (.deleted me node)).setNode node none

/-! ## The code -/

/-- `ConcurrentDequeue<T>::ConcurrentDequeue()`. -/
def construct [Inhabited T] (head tail : NodePtr) : NodeCode Thr T Unit := do
  newNode me head
  modify fun q => { q with head }
  newNode me tail
  modify fun q => { q with tail }
  writeNode me head fun h => { h with prev := none }
  writeNode me head fun h => { h with next := some tail }
  writeNode me tail fun t => { t with prev := some head }
  writeNode me tail fun t => { t with next := none }

/-- What the four pushes do under the lock. -/
def linkHead (node : NodePtr) : NodeCode Thr T Unit := do
  let q ← get
  -- node->next = head->next
  let head ← readNode me q.head
  writeNode me node fun n => { n with next := head.next }
  -- head->next = node
  writeNode me q.head fun h => { h with next := some node }
  -- node->next->prev = node
  let n ← readNode me node
  let next ← derefNode n.next
  writeNode me next fun s => { s with prev := some node }
  -- node->prev = head
  writeNode me node fun n => { n with prev := some q.head }
  modify (·.log (.linked me node n.data))

/-- What the two pops do under the lock: no node when the queue is empty. -/
def unlinkTail : NodeCode Thr T (Option NodePtr) := do
  let q ← get
  let tail ← readNode me q.tail
  if tail.prev = some q.head then
    return none
  -- node = tail->prev
  let tail ← readNode me q.tail
  let node ← derefNode tail.prev
  -- tail->prev = node->prev
  let n ← readNode me node
  writeNode me q.tail fun t => { t with prev := n.prev }
  -- tail->prev->next = tail
  let tail ← readNode me q.tail
  let prev ← derefNode tail.prev
  writeNode me prev fun p => { p with next := some q.tail }
  modify (·.log (.unlinked me node n.data))
  return some node

/-- The loop of `ConcurrentDequeue<T>::~ConcurrentDequeue()` and the `delete head`
after it; `fuel` bounds the number of tests of the condition. -/
def destroyFrom : (fuel : Nat) → NodeCode Thr T Unit
  | 0 => throw .outOfFuel
  | fuel + 1 => do
    let q ← get
    let head ← readNode me q.head
    match head.next with
    | none => deleteNode me q.head
    | some next =>
      modify fun q => { q with head := next }
      writeNode me next fun h => { h with prev := none }
      deleteNode me q.head
      destroyFrom fuel

end accessors
end ConcurrentDequeue

/-! ## The six operations -/

/-- `pthread_spin_lock` or `pthread_spin_trylock`. -/
inductive LockCall
  | spinLock
  | spinTrylock
  deriving DecidableEq

/-- How far a call has got. The `try` functions and the others have the same text
but for the lock they take and, in the pops, the `delete` at the end. -/
inductive DequeueCall (T : Type)
  | pushData (lock : LockCall) (data : T)
  | locking (lock : LockCall) (node : NodePtr)
  | refused (node : NodePtr)
  | pushNode (lock : LockCall) (node : NodePtr)
  | pop (lock : LockCall)
  | unlinked (lock : LockCall) (node : NodePtr)

inductive DequeueOperation (T : Type)
  | tryPushHead (data : T)
  | tryPushHeadNode (node : NodePtr)
  | pushHead (data : T)
  | pushHeadNode (node : NodePtr)
  | tryPopTail
  | popTail

def DequeueOperation.start {T : Type} : DequeueOperation T → DequeueCall T
  | tryPushHead data => .pushData .spinTrylock data
  | tryPushHeadNode node => .pushNode .spinTrylock node
  | pushHead data => .pushData .spinLock data
  | pushHeadNode node => .pushNode .spinLock node
  | tryPopTail => .pop .spinTrylock
  | popTail => .pop .spinLock

inductive CallOutcome (T : Type)
  | continues (call : DequeueCall T)
  | returns (result : Bool) (ret : Option T)

/-- What `new` returns and whether the lock call returned 0. -/
structure Answer where
  node : NodePtr
  acquired : Bool

/-- The next piece of a call. -/
def DequeueCall.run {Thr T : Type} [Inhabited T] (me : Thr) (answer : Answer) :
    DequeueCall T → NodeCode Thr T (CallOutcome T)
  | pushData lock data => do
    ConcurrentDequeue.newNode me answer.node
    ConcurrentDequeue.writeNode me answer.node fun n => { n with data }
    return .continues (.locking lock answer.node)
  | locking _ node => do
    if !answer.acquired then
      return .continues (.refused node)
    ConcurrentDequeue.linkHead me node
    return .returns true none
  | refused node => do
    ConcurrentDequeue.deleteNode me node
    return .returns false none
  | pushNode _ node => do
    if !answer.acquired then
      return .returns false none
    ConcurrentDequeue.linkHead me node
    return .returns true none
  | pop lock => do
    if !answer.acquired then
      return .returns false none
    match ← ConcurrentDequeue.unlinkTail me with
    | none => return .returns false none
    | some node => return .continues (.unlinked lock node)
  | unlinked .spinLock node => do
    let n ← ConcurrentDequeue.readNode me node
    ConcurrentDequeue.deleteNode me node
    return .returns true (some n.data)
  | unlinked .spinTrylock node => do
    -- tryPopTail has no delete
    let n ← ConcurrentDequeue.readNode me node
    return .returns true (some n.data)

end AsyncPing
