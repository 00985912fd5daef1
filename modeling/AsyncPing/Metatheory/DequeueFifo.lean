import AsyncPing.Metatheory.DequeueRuns

/-!
ConcurrentDequeue is a linearizable FIFO queue: its nodes hold a list of values,
its history is that of a queue whose operations take effect in their critical
sections, and a call that does not get the lock has no effect.
-/
namespace AsyncPing
open DoublyLinked

namespace DequeueState
variable {Thr T : Type} [DecidableEq Thr]

/-- The nodes between the sentinels and the values they hold, newest first, with
what the history says about them. -/
structure QueueOf (s : DequeueState Thr T) (between : List NodePtr) (values : List T) : Prop where
  forward : ∀ steps, between.length < steps →
    walk s.queue.next steps s.queue.head = s.queue.chain between
  backward : ∀ steps, between.length < steps →
    walk s.queue.prev steps s.queue.tail = (s.queue.chain between).reverse
  once : (s.queue.chain between).Nodup
  holds : between.map s.queue.data = values.map some
  order : s.queue.trace.filterMap DequeueEvent.pushed =
    values ++ s.queue.trace.filterMap DequeueEvent.taken
  linearized : Linearized s.queue.trace
  exclusive : Exclusive s.queue.trace

/-- The list of nodes is as it was. -/
structure SameList (s s' : DequeueState Thr T) (between : List NodePtr) : Prop where
  head : s'.queue.head = s.queue.head
  tail : s'.queue.tail = s.queue.tail
  cells : ∀ a ∈ s.queue.chain between, s'.queue.nodes a = s.queue.nodes a

/-- What the next piece of a call does when its answer decides about it. -/
structure PieceRuns [Inhabited T] (s : DequeueState Thr T) (between : List NodePtr)
    (values : List T) (thread : Thr) (answer : Answer) (s' : DequeueState Thr T) : Prop where
  served : (DequeueMove.run thread answer).serve s = .ok s'
  pushed : ∀ lock node, s.calls thread = some (.locking lock node) ∨
    s.calls thread = some (.pushNode lock node) → answer.acquired = true →
    ∃ v, s.queue.data node = some v ∧ s'.QueueOf (node :: between) (v :: values) ∧
      s'.queue.trace.head? = some (.returned thread true none) ∧ s'.calls thread = none
  popped : ∀ lock, s.calls thread = some (.pop lock) → answer.acquired = true → values ≠ [] →
    ∃ between' node values' v, between = between' ++ [node] ∧ values = values' ++ [v] ∧
      s'.QueueOf between' values' ∧ s'.calls thread = some (.unlinked lock node)
  empty : ∀ lock, s.calls thread = some (.pop lock) → answer.acquired = true →
    (s'.queue.trace.head? = some (.returned thread false none) ↔ values = [])
  pushRefused : ∀ lock node, s.calls thread = some (.locking lock node) →
    answer.acquired = false →
    s'.queue = s.queue ∧ s'.calls thread = some (.refused node)
  released : ∀ node, s.calls thread = some (.refused node) →
    s.SameList s' between ∧ (∀ a, a ≠ node → s'.queue.nodes a = s.queue.nodes a) ∧
      s'.queue.trace = .returned thread false none :: .deleted thread node :: s.queue.trace
  otherRefused : ∀ lock, (∃ node, s.calls thread = some (.pushNode lock node)) ∨
    s.calls thread = some (.pop lock) → answer.acquired = false →
    s'.queue = s.queue.log (.returned thread false none)

theorem DequeueInv.queueOf {s : DequeueState Thr T} {between : List NodePtr} {values : List T}
    (inv : DequeueInv s between values) : s.QueueOf between values :=
  ⟨fun steps enough => (inv.shape.walks steps enough).1,
    fun steps enough => (inv.shape.walks steps enough).2, inv.shape.distinct, inv.shape.values,
    inv.accounted.order, inv.accounted.linearized, inv.exclusive⟩

section pieces
variable {s s' : DequeueState Thr T} {between between' : List NodePtr}
  {values values' : List T} {thread : Thr} {answer : Answer}
  (progress : Progress s between values (.run thread answer) s' between' values')
include progress

/-- A push that gets the lock links its node and returns true. -/
theorem Progress.push_acquired (inv : DequeueInv s between values) {lock : LockCall}
    {node : NodePtr} (current : s.calls thread = some (.locking lock node) ∨
      s.calls thread = some (.pushNode lock node)) (acquired : answer.acquired = true) :
    ∃ v, s.queue.data node = some v ∧ s'.QueueOf (node :: between) (v :: values) ∧
      s'.queue.trace.head? = some (.returned thread true none) ∧ s'.calls thread = none := by
  have after := (progress.keeps inv).queueOf
  cases progress with
  | linked _ _ lock' call node' n q' current' tries _ there =>
      have same : node' = node := by
        rw [current', Option.some.injEq, Option.some.injEq] at current
        cases tries with
        | inl locking => simp_all
        | inr brought => simp_all
      subst same
      refine ⟨n.data, ?_, after, rfl, Function.update_self ..⟩
      rw [ConcurrentDequeue.data, there, Option.map_some]
  | _ => simp_all

/-- A pop that gets the lock takes the oldest value, if there is one. -/
theorem Progress.pop_takes (inv : DequeueInv s between values) {lock : LockCall}
    (current : s.calls thread = some (.pop lock)) (acquired : answer.acquired = true)
    (nonempty : values ≠ []) :
    ∃ before node older v, between = before ++ [node] ∧ values = older ++ [v] ∧
      s'.QueueOf before older ∧ s'.calls thread = some (.unlinked lock node) := by
  have after := (progress.keeps inv).queueOf
  cases progress with
  | popEmpty _ _ _ _ _ _ empty => exact absurd empty nonempty
  | taken _ _ lock' node v q' _ _ current' _ lastNode lastValue =>
      cases current.symm.trans current'
      exact ⟨between', node, values', v, lastNode, lastValue, after, Function.update_self ..⟩
  | _ => simp_all

theorem Progress.pop_acquired {lock : LockCall} (current : s.calls thread = some (.pop lock))
    (acquired : answer.acquired = true) :
    s'.queue.trace.head? = some (.returned thread false none) ↔ values = [] := by
  cases progress with
  | popEmpty _ _ _ _ _ _ empty => exact ⟨fun _ => empty, fun _ => rfl⟩
  | taken _ _ lock node v q' _ values' _ _ _ lastValue _ edits =>
      obtain ⟨acc, trace, -⟩ := edits.trace
      constructor
      · intro head
        change q'.trace.head? = _ at head
        rw [trace] at head
        cases head
      · intro empty
        rw [lastValue] at empty
        cases (List.append_eq_nil_iff.mp empty).2
  | _ => simp_all

theorem Progress.push_refused {lock : LockCall} {node : NodePtr}
    (current : s.calls thread = some (.locking lock node)) (failed : answer.acquired = false) :
    s'.queue = s.queue ∧ s'.calls thread = some (.refused node) := by
  cases progress with
  | lockRefused _ _ lock' node' current' _ =>
      cases current.symm.trans current'
      exact ⟨rfl, Function.update_self ..⟩
  | _ => simp_all

theorem Progress.other_refused {lock : LockCall}
    (current : (∃ node, s.calls thread = some (.pushNode lock node)) ∨
      s.calls thread = some (.pop lock)) (failed : answer.acquired = false) :
    s'.queue = s.queue.log (.returned thread false none) := by
  cases progress with
  | nodeRefused => rfl
  | popRefused => rfl
  | _ => simp_all

theorem Progress.releases {node : NodePtr} (inv : DequeueInv s between values)
    (current : s.calls thread = some (.refused node)) :
    s.SameList s' between ∧ (∀ a, a ≠ node → s'.queue.nodes a = s.queue.nodes a) ∧
      s'.queue.trace = .returned thread false none :: .deleted thread node :: s.queue.trace := by
  cases progress with
  | released _ _ node' current' =>
      cases current.symm.trans current'
      have cells (a : NodePtr) (other : a ≠ node) :
          Function.update s.queue.nodes node none a = s.queue.nodes a :=
        Function.update_of_ne other ..
      refine ⟨⟨rfl, rfl, ?_⟩, cells, rfl⟩
      intro a member
      obtain ⟨n, -, apart⟩ := inv.brought current rfl
      apply cells a
      intro same
      subst same
      exact apart member
  | _ => simp_all

end pieces

end DequeueState

open DequeueState in
theorem dequeue_is_fifo {Thr T : Type} [DecidableEq Thr] [Inhabited T]
    {allowed : DequeueState Thr T → DequeueMove Thr T → Prop} {s : DequeueState Thr T}
    (reached : (dequeueSystem Thr T).Reachable allowed s) :
    ∃ between values, s.QueueOf between values ∧
      ∀ thread answer, (DequeueMove.run thread answer).enabled s →
        ∃ s', s.PieceRuns between values thread answer s' := by
  obtain ⟨between, values, inv⟩ := dequeue_invariant reached
  refine ⟨between, values, inv.queueOf, ?_⟩
  intro thread answer offered
  obtain ⟨s', between', values', served, progress⟩ := serve_progress inv offered
  exact ⟨s', served, fun _ _ => progress.push_acquired inv, fun _ => progress.pop_takes inv,
    fun _ => progress.pop_acquired, fun _ _ => progress.push_refused,
    fun _ => progress.releases inv, fun _ => progress.other_refused⟩

section sample

/-- The dequeue that the constructor leaves when its nodes are at 0 and 1. -/
def Sample.emptyDequeue : DequeueState Nat Nat where
  queue :=
    { nodes := Function.update (Function.update (fun _ => none)
        0 (some ⟨default, some 1, none⟩)) 1 (some ⟨default, none, some 0⟩)
      head := 0, tail := 1
      trace := [.access 9 1, .access 9 1, .access 9 0, .access 9 0, .allocated 9 1,
        .allocated 9 0] }
  calls _ := none
  callers := []

theorem Sample.emptyDequeue_constructed : Sample.emptyDequeue.Constructed := by
  refine ⟨⟨9, 0, 1, Nat.zero_ne_one, ?_⟩, fun _ => rfl, rfl⟩
  exact ConcurrentDequeue.construct_eq _ 9 Nat.zero_ne_one

/-- Threads 1 and 2 push 10 and 20, thread 3 fails to push a node of its own, and
thread 4 has taken the older value out and not yet returned it. -/
def Sample.dequeue : DequeueState Nat Nat :=
  ((dequeueSystem Nat Nat).follow (fun _ _ => True) Sample.emptyDequeue
    [.call 1 (.pushHead 10), .call 2 (.tryPushHead 20), .run 1 ⟨2, true⟩, .run 2 ⟨3, true⟩,
      .run 1 ⟨0, true⟩, .run 2 ⟨0, true⟩, .make 4 ⟨30, none, none⟩,
      .call 3 (.tryPushHeadNode 4), .run 3 ⟨0, false⟩, .call 4 .tryPopTail,
      .run 4 ⟨0, true⟩]).get rfl

theorem dequeue_is_fifo_four_threads :
    ∃ between values, Sample.dequeue.QueueOf between values ∧
      ∀ thread answer, (DequeueMove.run thread answer).enabled Sample.dequeue →
        ∃ s', Sample.dequeue.PieceRuns between values thread answer s' :=
  dequeue_is_fifo (Machine.reachable_of_follow Sample.emptyDequeue_constructed _ rfl)

example : Sample.dequeue.queue.trace.filterMap DequeueEvent.taken = [10] := rfl

end sample

end AsyncPing
