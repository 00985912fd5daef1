import AsyncPing.Core.CommonList
import Mathlib.Data.List.Basic

/-!
Any number of threads at work on one ConcurrentDequeue. A move starts a call in a
thread that has none, or runs the next piece of the call a thread is in; moves
come in any order. Callers of the node overloads bring nodes of their own, which
are theirs until a call takes them and again when the call is refused.
-/
namespace AsyncPing

/-- `callers` holds the nodes that callers have made and not passed on. -/
structure DequeueState (Thr T : Type) where
  queue : ConcurrentDequeue Thr T
  calls : Thr → Option (DequeueCall T)
  callers : List NodePtr

inductive DequeueMove (Thr T : Type)
  | make (node : NodePtr) (cell : DequeueNode T)
  | call (thread : Thr) (operation : DequeueOperation T)
  | run (thread : Thr) (answer : Answer)

/-- The node a caller passes on. -/
def DequeueOperation.argument {T : Type} : DequeueOperation T → Option NodePtr
  | tryPushHeadNode node | pushHeadNode node => some node
  | tryPushHead _ | pushHead _ | tryPopTail | popTail => none

/-- The value that a call is to push. -/
def DequeueOperation.value {Thr T : Type} (q : ConcurrentDequeue Thr T) :
    DequeueOperation T → Option T
  | tryPushHead data | pushHead data => some data
  | tryPushHeadNode node | pushHeadNode node => (q.nodes node).map DequeueNode.data
  | tryPopTail | popTail => none

namespace DequeueState
variable {Thr T : Type} [DecidableEq Thr]

/-- The thread goes on to the next piece, or its call is over. A refused node
goes back to its caller. -/
def advance (s : DequeueState Thr T) (thread : Thr) (call : DequeueCall T)
    (outcome : CallOutcome T) (queue : ConcurrentDequeue Thr T) : DequeueState Thr T :=
  match outcome with
  | .continues next => { s with queue, calls := Function.update s.calls thread (some next) }
  | .returns result ret =>
      { queue := queue.log (.returned thread result ret)
        calls := Function.update s.calls thread none
        callers := match call, result with
          | .pushNode _ node, false => node :: s.callers
          | _, _ => s.callers }

end DequeueState

namespace DequeueMove
variable {Thr T : Type} [DecidableEq Thr]

/-- `new` returns the address of a node that is not there; node arguments are
fresh. -/
def enabled (s : DequeueState Thr T) : DequeueMove Thr T → Prop
  | make node _ => s.queue.nodes node = none
  | call thread operation => s.calls thread = none ∧ ∀ node ∈ operation.argument, node ∈ s.callers
  | run thread answer => ∃ current, s.calls thread = some current ∧
      ∀ lock data, current = .pushData lock data → s.queue.nodes answer.node = none

instance (call : DequeueCall T) (free : Prop) [Decidable free] :
    Decidable (∀ lock data, call = .pushData lock data → free) :=
  match call with
  | .pushData _ _ => decidable_of_iff free ⟨fun h _ _ _ => h, fun h => h _ _ rfl⟩
  | .locking _ _ | .refused _ | .pushNode _ _ | .pop _ | .unlinked _ _ =>
      .isTrue fun _ _ same => by cases same

instance (s : DequeueState Thr T) (l : DequeueMove Thr T) : Decidable (l.enabled s) :=
  match l with
  | make node _ => inferInstanceAs (Decidable (s.queue.nodes node = none))
  | call thread operation =>
      inferInstanceAs (Decidable (s.calls thread = none ∧ ∀ node ∈ operation.argument, _))
  | run thread answer =>
      match current : s.calls thread with
      | none => .isFalse fun ⟨_, other, _⟩ => by cases current.symm.trans other
      | some here =>
          decidable_of_iff (∀ lock data, here = .pushData lock data →
            s.queue.nodes answer.node = none)
            ⟨fun free => ⟨here, current, free⟩, fun ⟨_, same, free⟩ =>
              Option.some.inj (current.symm.trans same) ▸ free⟩

def serve [Inhabited T] : DequeueMove Thr T → DequeueState Thr T →
    Except NodeFault (DequeueState Thr T)
  | make node cell, s => .ok
      { s with
        queue := (s.queue.log (.made node)).setNode node (some cell)
        callers := node :: s.callers }
  | call thread operation, s => .ok
      { queue := s.queue.log (.called thread (operation.value s.queue))
        calls := Function.update s.calls thread (some operation.start)
        callers := operation.argument.elim s.callers s.callers.erase }
  | run thread answer, s =>
      match s.calls thread with
      | none => .ok s
      | some current =>
          (current.run thread answer s.queue).map fun r => s.advance thread current r.1 r.2

end DequeueMove

/-- A dequeue that its constructor has just left. -/
def DequeueState.Constructed {Thr T : Type} [Inhabited T] (s : DequeueState Thr T) : Prop :=
  (∃ me head tail, head ≠ tail ∧
    ConcurrentDequeue.construct me head tail ⟨fun _ => none, 0, 0, []⟩ = .ok ((), s.queue)) ∧
    (∀ thread, s.calls thread = none) ∧ s.callers = []

def dequeueSystem (Thr T : Type) [DecidableEq Thr] [Inhabited T] :
    Machine (DequeueState Thr T) (DequeueMove Thr T) NodeFault where
  start := DequeueState.Constructed
  enabled s l := l.enabled s
  serve := DequeueMove.serve

instance {Thr T : Type} [DecidableEq Thr] [Inhabited T] (s : DequeueState Thr T)
    (l : DequeueMove Thr T) : Decidable ((dequeueSystem Thr T).enabled s l) :=
  inferInstanceAs (Decidable (l.enabled s))

end AsyncPing
