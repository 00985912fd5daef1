import AsyncPing.Metatheory.DequeueFifo

/-!
Where the nodes of a ConcurrentDequeue go that its own operations allocate. As long
as no tryPopTail takes a node out, a node that is there is a sentinel, is linked or
is with a running call, and the destructor deletes what is left. tryPopTail has no
`delete`: the node it takes out stays behind.
-/
namespace AsyncPing
open DoublyLinked

/-! ## What is allocated and what is deleted -/

namespace DequeueEvent
variable {Thr T : Type}

@[simp] def allocates (a : NodePtr) : DequeueEvent Thr T → Bool
  | allocated _ node => node == a
  | called _ _ | access _ _ | made _ | deleted _ _ | linked _ _ _ | unlinked _ _ _
  | returned _ _ _ => false

@[simp] def deletes (a : NodePtr) : DequeueEvent Thr T → Bool
  | deleted _ node => node == a
  | called _ _ | access _ _ | made _ | allocated _ _ | linked _ _ _ | unlinked _ _ _
  | returned _ _ _ => false

end DequeueEvent

namespace ConcurrentDequeue
variable {Thr T : Type} {q q' : ConcurrentDequeue Thr T}

/-- How often a node was allocated at this address, and how often one was deleted. -/
def allocations (q : ConcurrentDequeue Thr T) (a : NodePtr) : Nat :=
  q.trace.countP (DequeueEvent.allocates a)

def deletions (q : ConcurrentDequeue Thr T) (a : NodePtr) : Nat :=
  q.trace.countP (DequeueEvent.deletes a)

/-- Every node that is there was allocated by the dequeue, and what it allocated
and has deleted is even. -/
def Ledger (q : ConcurrentDequeue Thr T) : Prop :=
  ∀ a, q.allocations a = q.deletions a + if (q.nodes a).isSome then 1 else 0

namespace Ledger

theorem quiet (ledger : q.Ledger) (own : List (DequeueEvent Thr T))
    (trace : q'.trace = own ++ q.trace)
    (neither : ∀ e ∈ own, ∀ a, e.allocates a = false ∧ e.deletes a = false)
    (live : ∀ a, (q'.nodes a).isSome = (q.nodes a).isSome) : q'.Ledger := by
  intro a
  have none {select : DequeueEvent Thr T → Bool} (skips : ∀ e ∈ own, select e = false) :
      own.countP select = 0 :=
    List.countP_eq_zero.mpr fun e member => by simp [skips e member]
  rw [allocations, deletions, trace, List.countP_append, List.countP_append,
    none fun e member => (neither e member a).1, none fun e member => (neither e member a).2,
    live a, Nat.zero_add, Nat.zero_add]
  exact ledger a

theorem allocate {me : Thr} {node : NodePtr} {cell : DequeueNode T} (ledger : q.Ledger)
    (free : q.nodes node = none) :
    ((q.log (.allocated me node)).setNode node (some cell)).Ledger := by
  intro a
  have before := ledger a
  simp only [allocations, deletions, setNode_trace, log_trace, setNode_nodes, log_nodes,
    List.countP_cons, DequeueEvent.allocates, DequeueEvent.deletes, Function.update_apply,
    beq_iff_eq] at before ⊢
  by_cases same : a = node
  · subst same
    simp [free] at before ⊢
    exact before
  · simp [same, Ne.symm same] at before ⊢
    exact before

theorem delete {me : Thr} {node : NodePtr} (ledger : q.Ledger) (live : (q.nodes node).isSome) :
    ((q.log (.deleted me node)).setNode node none).Ledger := by
  intro a
  have before := ledger a
  simp only [allocations, deletions, setNode_trace, log_trace, setNode_nodes, log_nodes,
    List.countP_cons, DequeueEvent.allocates, DequeueEvent.deletes, Function.update_apply,
    beq_iff_eq] at before ⊢
  by_cases same : a = node
  · subst same
    simp [live] at before ⊢
    exact before
  · simp [same, Ne.symm same] at before ⊢
    exact before

end Ledger

/-! ## The destructor -/

/-- The loop deletes every node from the head on, and only these. -/
theorem destroyFrom_eq (me : Thr) (rest : List NodePtr) : ∀ (a : NodePtr)
    (q : ConcurrentDequeue Thr T), q.head = a → Links q.next q.prev (a :: rest) →
    q.next ((a :: rest).getLast (List.cons_ne_nil a rest)) = none → (a :: rest).Nodup →
    (∀ b ∈ a :: rest, (q.nodes b).isSome) →
    ∃ q', (∀ fuel, rest.length < fuel → destroyFrom me fuel q = .ok ((), q')) ∧
      (∀ b, q'.nodes b = if b ∈ a :: rest then none else q.nodes b) ∧ (q.Ledger → q'.Ledger) := by
  induction rest with
  | nil =>
      intro a q head _ last _ live
      subst head
      obtain ⟨n, there⟩ := Option.isSome_iff_exists.mp (live q.head (.head _))
      have ends : n.next = none := by
        rw [List.getLast_singleton, next, there] at last
        exact last
      refine ⟨((q.log (.access me q.head)).log (.deleted me q.head)).setNode q.head none,
        ?_, ?_, ?_⟩
      · intro fuel enough
        obtain ⟨fuel, rfl⟩ := Nat.exists_eq_succ_of_ne_zero (Nat.ne_of_gt enough)
        simp only [destroyFrom, Exec.get_bind, readNode_bind, there, Option.elim_some, ends,
          deleteNode_apply, log_nodes]
      · intro b
        simp [Function.update_apply]
      · intro ledger
        have read : (q.log (.access me q.head)).Ledger :=
          ledger.quiet [.access me q.head] rfl (by simp) fun _ => rfl
        exact read.delete (live q.head (.head _))
  | cons b rest ih =>
      intro a q head links last distinct live
      subst head
      obtain ⟨n, there⟩ := Option.isSome_iff_exists.mp (live q.head (.head _))
      obtain ⟨m, after⟩ := Option.isSome_iff_exists.mp (live b (.tail _ (.head _)))
      have leads : n.next = some b := by
        have forward := links.1
        rw [next, there] at forward
        exact forward
      have apart : ∀ c ∈ b :: rest, c ≠ q.head := by
        rintro c member rfl
        exact (List.nodup_cons.mp distinct).1 member
      have apartB : b ≠ q.head := apart b (.head _)
      -- the dequeue after one round
      let q₁ : ConcurrentDequeue Thr T :=
        { nodes := Function.update (Function.update q.nodes b (some { m with prev := none }))
            q.head none
          head := b, tail := q.tail
          trace := .deleted me q.head :: .access me b :: .access me q.head :: q.trace }
      have cells (c : NodePtr) (other : c ≠ b) (inside : c ≠ q.head) :
          q₁.nodes c = q.nodes c := by
        simp only [q₁, Function.update_of_ne inside, Function.update_of_ne other]
      have atB : q₁.nodes b = some { m with prev := none } := by
        simp only [q₁, Function.update_of_ne apartB, Function.update_self]
      have forward (c : NodePtr) (member : c ∈ b :: rest) : q₁.next c = q.next c := by
        by_cases same : c = b
        · rw [same, next, atB, next, after]
          rfl
        · rw [next, cells c same (apart c member), next]
      obtain ⟨q', run, gone, ledger⟩ := ih b q₁ rfl
        (links.2.2.congr forward fun c member => by
          have other : c ≠ b := by
            intro same
            subst same
            exact (List.nodup_cons.mp (List.nodup_cons.mp distinct).2).1 member
          rw [prev, cells c other (apart c (.tail _ member)), prev])
        ((forward _ (List.getLast_mem _)).trans (by rw [← last, List.getLast_cons_cons]))
        (List.nodup_cons.mp distinct).2
        (fun c member => by
          by_cases same : c = b
          · rw [same, atB]
            rfl
          · rw [cells c same (apart c member)]
            exact live c (.tail _ member))
      refine ⟨q', ?_, ?_, ?_⟩
      · intro fuel enough
        obtain ⟨fuel, rfl⟩ := Nat.exists_eq_succ_of_ne_zero (Nat.ne_of_gt (Nat.zero_lt_of_lt enough))
        rw [← run fuel (Nat.lt_of_succ_lt_succ enough)]
        simp only [destroyFrom, Exec.get_bind, readNode_bind, there, Option.elim_some, leads,
          Exec.modify_bind, writeNode_bind, deleteNode_bind, log_nodes, after, setNode_nodes,
          Function.update_of_ne apartB.symm]
        rfl
      · intro c
        rw [gone c]
        by_cases first : c = q.head
        · rw [first, if_pos (List.mem_cons_self)]
          simp only [q₁, Function.update_self, ite_self]
        · by_cases member : c ∈ b :: rest
          · rw [if_pos member, if_pos (.tail _ member)]
          · have outside : c ∉ q.head :: b :: rest := by
              intro inside
              exact member ((List.mem_cons.mp inside).resolve_left first)
            have other : c ≠ b := by
              intro same
              subst same
              exact member (.head _)
            rw [if_neg member, if_neg outside, cells c other first]
      · intro before
        apply ledger
        have read : (ConcurrentDequeue.mk (Function.update q.nodes b (some { m with prev := none }))
            b q.tail (.access me b :: .access me q.head :: q.trace)).Ledger := by
          refine before.quiet [.access me b, .access me q.head] rfl (by simp) fun c => ?_
          by_cases same : c = b
          · simp [same, after]
          · simp [Function.update_of_ne same]
        refine read.delete ?_
        simp only [Function.update_of_ne apartB.symm]
        exact live q.head (.head _)

end ConcurrentDequeue

/-! ## Who has a node -/

/-- Values are pushed and popped; no caller brings a node of its own. -/
def DequeueMove.ofValues {Thr T : Type} : DequeueMove Thr T → Prop
  | make _ _ => False
  | call _ operation => operation.argument = none
  | run _ _ => True

/-- The call has the node in hand. -/
def DequeueCall.Has {T : Type} (call : Option (DequeueCall T)) (a : NodePtr) : Prop :=
  call.bind DequeueCall.brings = some a ∨ call.bind DequeueCall.takes = some a

@[simp] theorem DequeueCall.has_some {T : Type} (call : DequeueCall T) (a : NodePtr) :
    Has (some call) a ↔ call.brings = some a ∨ call.takes = some a := .rfl

@[simp] theorem DequeueCall.has_none {T : Type} (a : NodePtr) :
    ¬ Has (none : Option (DequeueCall T)) a := by
  simp [Has]

namespace DequeueState
variable {Thr T : Type}

/-- A running call has the node in hand. -/
def Holds (s : DequeueState Thr T) (a : NodePtr) : Prop :=
  ∃ thread, DequeueCall.Has (s.calls thread) a

/-- A node that is there, is not in the list and that no running call has. -/
def Leaked (s : DequeueState Thr T) (between : List NodePtr) (a : NodePtr) : Prop :=
  (s.queue.nodes a).isSome ∧ a ∉ s.queue.chain between ∧ ¬ s.Holds a

/-- The move is not the last piece of a tryPopTail that has taken a node out. -/
def FreesNode (s : DequeueState Thr T) (l : DequeueMove Thr T) : Prop :=
  ∀ thread answer node, l = .run thread answer →
    s.calls thread ≠ some (.unlinked .spinTrylock node)

/-- The nodes allocated and not deleted are the sentinels, the nodes linked between
them and those of running calls. When no call runs, the destructor comes to its
end, and then as many nodes were deleted at every address as were allocated there. -/
structure NodesKept (s : DequeueState Thr T) : Prop where
  live : ∃ between values, s.queue.Represents between values ∧ ∀ a,
    (a ∈ s.queue.chain between ∨ s.Holds a → s.queue.allocations a = s.queue.deletions a + 1) ∧
    (¬ (a ∈ s.queue.chain between ∨ s.Holds a) → s.queue.allocations a = s.queue.deletions a)
  destroyed : (∀ thread, s.calls thread = none) → ∀ me, ∃ enough q',
    (∀ fuel, enough < fuel → ConcurrentDequeue.destroyFrom me fuel s.queue = .ok ((), q')) ∧
    ∀ a, q'.nodes a = none ∧ q'.allocations a = q'.deletions a

/-- Only what one thread has matters when only that thread goes on. -/
theorem leaked_update [DecidableEq Thr] {s s' : DequeueState Thr T} {between between' : List NodePtr}
    (thread : Thr) {current : Option (DequeueCall T)}
    (calls : s'.calls = Function.update s.calls thread current) (step : ∀ a,
      ((s'.queue.nodes a).isSome ∧ a ∉ s'.queue.chain between' ∧ ¬ DequeueCall.Has current a) ↔
      ((s.queue.nodes a).isSome ∧ a ∉ s.queue.chain between ∧
        ¬ DequeueCall.Has (s.calls thread) a)) (a : NodePtr) :
    s'.Leaked between' a ↔ s.Leaked between a := by
  have others : s'.Holds a ↔ DequeueCall.Has current a ∨
      ∃ other, other ≠ thread ∧ DequeueCall.Has (s.calls other) a := by
    constructor
    · rintro ⟨other, held⟩
      rw [calls] at held
      by_cases same : other = thread
      · rw [same, Function.update_self] at held
        exact .inl held
      · rw [Function.update_of_ne same] at held
        exact .inr ⟨other, same, held⟩
    · rintro (mine | ⟨other, apart, held⟩)
      · refine ⟨thread, ?_⟩
        rw [calls, Function.update_self]
        exact mine
      · refine ⟨other, ?_⟩
        rw [calls, Function.update_of_ne apart]
        exact held
  have before : s.Holds a ↔ DequeueCall.Has (s.calls thread) a ∨
      ∃ other, other ≠ thread ∧ DequeueCall.Has (s.calls other) a := by
    constructor
    · rintro ⟨other, held⟩
      by_cases same : other = thread
      · exact .inl (same ▸ held)
      · exact .inr ⟨other, same, held⟩
    · rintro (mine | ⟨other, -, held⟩)
      · exact ⟨thread, mine⟩
      · exact ⟨other, held⟩
  have now := step a
  rw [Leaked, Leaked, others, before]
  grind

/-! ## What a move does to the nodes -/

/-- No caller has brought a node. -/
structure NoNodesBrought (s : DequeueState Thr T) : Prop where
  callers : s.callers = []
  calls : ∀ thread lock node, s.calls thread ≠ some (.pushNode lock node)

section progress
variable [DecidableEq Thr] {s s' : DequeueState Thr T} {between between' : List NodePtr}
  {values values' : List T} {l : DequeueMove Thr T} (inv : DequeueInv s between values)
  (progress : Progress s between values l s' between' values') (ofValues : l.ofValues)
  (unbrought : s.NoNodesBrought)

include progress ofValues unbrought in
theorem Progress.noNodesBrought : s'.NoNodesBrought := by
  have update {thread : Thr} {current : Option (DequeueCall T)}
      (other : ∀ lock node, current ≠ some (.pushNode lock node)) (t : Thr) (lock : LockCall)
      (node : NodePtr) : Function.update s.calls thread current t ≠ some (.pushNode lock node) := by
    rw [Function.update_apply]
    split
    · exact other lock node
    · exact unbrought.calls t lock node
  cases progress with
  | make => exact ofValues.elim
  | call thread operation idle fresh =>
      have noNode : operation.argument = .none := ofValues
      refine ⟨?_, update fun lock node same => ?_⟩
      · rw [noNode]
        exact unbrought.callers
      · cases operation <;> cases same
        · cases noNode
        · cases noNode
  | nodeRefused thread answer lock node current => cases unbrought.calls thread lock node current
  | linked thread answer lock call node n q' current tries =>
      refine ⟨?_, update (by simp)⟩
      cases tries with
      | inl same =>
          subst same
          exact unbrought.callers
      | inr same =>
          subst same
          cases unbrought.calls thread lock node current
  | _ => exact ⟨unbrought.callers, update (by simp)⟩

include inv progress ofValues in
theorem Progress.ledger (ledger : s.queue.Ledger) : s'.queue.Ledger := by
  cases progress with
  | make => exact ofValues.elim
  | call thread operation idle fresh =>
      exact ledger.quiet [.called thread (operation.value s.queue)] rfl (by simp) fun _ => rfl
  | allocated thread answer lock data current free =>
      exact (ledger.allocate free).quiet [.access thread answer.node] rfl (by simp) fun _ => rfl
  | lockRefused => exact ledger
  | released thread answer node current =>
      obtain ⟨n, there, -⟩ := inv.brought current rfl
      have live : (s.queue.nodes node).isSome := there ▸ rfl
      exact (ledger.delete live).quiet [.returned thread false .none] rfl (by simp) fun _ => rfl
  | linked thread answer lock call node n q' current tries acquired there shape edits =>
      obtain ⟨acc, trace, accesses⟩ := edits.trace
      refine ledger.quiet (.returned thread true .none :: .linked thread node n.data :: acc)
        (congrArg _ trace) ?_ edits.live
      intro e member a
      rcases List.mem_cons.mp member with rfl | later
      · exact ⟨rfl, rfl⟩
      cases List.mem_cons.mp later with
      | inl same =>
          subst same
          exact ⟨rfl, rfl⟩
      | inr within =>
          obtain ⟨b, -, rfl⟩ := accesses e within
          exact ⟨rfl, rfl⟩
  | nodeRefused thread =>
      exact ledger.quiet [.returned thread false .none] rfl (by simp) fun _ => rfl
  | popRefused thread =>
      exact ledger.quiet [.returned thread false .none] rfl (by simp) fun _ => rfl
  | popEmpty thread =>
      exact ledger.quiet [.returned thread false .none, .access thread s.queue.tail] rfl (by simp)
        fun _ => rfl
  | taken thread answer lock node v q' between' values' current acquired lastNode lastValue shape
      edits =>
      obtain ⟨acc, trace, accesses⟩ := edits.trace
      refine ledger.quiet (.unlinked thread node v :: acc) trace ?_ edits.live
      intro e member a
      cases List.mem_cons.mp member with
      | inl same =>
          subst same
          exact ⟨rfl, rfl⟩
      | inr within =>
          obtain ⟨b, -, rfl⟩ := accesses e within
          exact ⟨rfl, rfl⟩
  | popReturns thread answer node n current there =>
      have read : (s.queue.log (.access thread node)).Ledger :=
        ledger.quiet [.access thread node] rfl (by simp) fun _ => rfl
      have live : (s.queue.nodes node).isSome := there ▸ rfl
      exact (read.delete live).quiet [.returned thread true (some n.data)] rfl (by simp)
        fun _ => rfl
  | tryPopReturns thread answer node n current there =>
      exact ledger.quiet [.returned thread true (some n.data), .access thread node] rfl (by simp)
        fun _ => rfl

include progress ofValues unbrought in
/-- No move but the last piece of tryPopTail leaks a node, and none finds one again. -/
theorem Progress.leaked (frees : s.FreesNode l) (a : NodePtr) :
    s'.Leaked between' a ↔ s.Leaked between a := by
  cases progress with
  | make => exact ofValues.elim
  | call thread operation idle fresh =>
      refine leaked_update thread rfl (fun a => ?_) a
      have noNode : operation.argument = .none := ofValues
      have nothing : ¬ DequeueCall.Has (some operation.start) a := by
        cases operation <;> simp_all [DequeueOperation.start, DequeueOperation.argument]
      rw [idle]
      exact and_congr_right fun _ => and_congr_right fun _ =>
        iff_of_true nothing (DequeueCall.has_none a)
  | allocated thread answer lock data current free =>
      refine leaked_update thread rfl (fun a => ?_) a
      rw [current]
      by_cases same : a = answer.node
      · simp [same, free]
      · have cell : Function.update s.queue.nodes answer.node (some ⟨data, none, none⟩) a =
            s.queue.nodes a := Function.update_of_ne same ..
        simp [advance, cell, Ne.symm same, ConcurrentDequeue.chain]
  | lockRefused thread answer lock node current failed =>
      refine leaked_update thread rfl (fun a => ?_) a
      rw [current]
      simp [advance]
  | released thread answer node current =>
      refine leaked_update thread rfl (fun a => ?_) a
      rw [current]
      by_cases same : a = node
      · simp [same, advance]
      · simp [advance, Ne.symm same, same, ConcurrentDequeue.chain]
  | linked thread answer lock call node n q' current tries acquired there shape edits =>
      refine leaked_update thread rfl (fun a => ?_) a
      have has : DequeueCall.Has (s.calls thread) a ↔ node = a := by
        rw [current]
        rcases tries with rfl | rfl <;> simp
      have longer : a ∈ q'.chain (node :: between) ↔ node = a ∨ a ∈ s.queue.chain between := by
        simp [ConcurrentDequeue.chain, edits.head, edits.tail]
        grind
      have live := edits.live a
      rw [has]
      change ((q'.nodes a).isSome ∧ a ∉ q'.chain (node :: between) ∧ ¬ DequeueCall.Has none a) ↔ _
      rw [live, longer]
      grind [DequeueCall.has_none]
  | nodeRefused thread answer lock node current => cases unbrought.calls thread lock node current
  | popRefused thread answer lock current failed =>
      refine leaked_update thread rfl (fun a => ?_) a
      rw [current]
      simp [advance, ConcurrentDequeue.chain]
  | popEmpty thread answer lock current acquired noNodes empty =>
      refine leaked_update thread rfl (fun a => ?_) a
      rw [current]
      simp [advance, ConcurrentDequeue.chain]
  | taken thread answer lock node v q' between' values' current acquired lastNode lastValue shape
      edits =>
      refine leaked_update thread rfl (fun a => ?_) a
      have shorter : a ∈ s.queue.chain between ↔ node = a ∨ a ∈ q'.chain between' := by
        rw [lastNode]
        simp [ConcurrentDequeue.chain, edits.head, edits.tail]
        grind
      have live := edits.live a
      rw [current]
      change ((q'.nodes a).isSome ∧ a ∉ q'.chain between' ∧ ¬ _) ↔ _
      rw [live, shorter, DequeueCall.has_some, DequeueCall.has_some]
      simp only [DequeueCall.brings, DequeueCall.takes]
      grind
  | popReturns thread answer node n current there =>
      refine leaked_update thread rfl (fun a => ?_) a
      rw [current]
      by_cases same : a = node
      · simp [same, advance]
      · simp [advance, Ne.symm same, same, ConcurrentDequeue.chain]
  | tryPopReturns thread answer node n current there =>
      exact absurd current (frees thread answer node rfl)

include inv progress in
/-- The last piece of tryPopTail leaks its node. -/
theorem Progress.leaks {thread : Thr} {answer : Answer} {node : NodePtr}
    (same : l = .run thread answer)
    (current : s.calls thread = some (.unlinked .spinTrylock node)) : s'.Leaked between' node := by
  subst same
  have occupies : s.Occupies between node (.popping thread) := occupies_popping current rfl
  cases progress with
  | tryPopReturns _ _ node' n current' there =>
      cases current.symm.trans current'
      refine ⟨there ▸ rfl, ?_, ?_⟩
      · intro member
        have listed : s.Occupies between node .list := member
        cases inv.arranged.apart _ _ _ listed occupies
      · rintro ⟨other, held⟩
        have calls : (s.advance thread (.unlinked .spinTrylock node) (.returns true (some n.data))
          (s.queue.log (.access thread node))).calls = Function.update s.calls thread none := rfl
        rw [calls] at held
        by_cases mine : other = thread
        · rw [mine, Function.update_self] at held
          exact DequeueCall.has_none node held
        · rw [Function.update_of_ne mine] at held
          cases held with
          | inl brings =>
              cases inv.arranged.apart (.pushing other) _ _ brings occupies
          | inr takes =>
              exact mine (NodePlace.popping.inj
                (inv.arranged.apart (.popping other) _ _ takes occupies))
  | _ => simp_all

end progress

/-! ## Whole runs -/

section runs
variable [DecidableEq Thr] {s : DequeueState Thr T} {between : List NodePtr} {values : List T}

/-- In a run on values the invariant holds, the ledger is even and no node has come
from outside. -/
theorem value_invariant [Inhabited T] {allowed : DequeueState Thr T → DequeueMove Thr T → Prop}
    (ofValues : ∀ r l, allowed r l → l.ofValues)
    (reached : (dequeueSystem Thr T).Reachable allowed s) :
    (∃ between values, DequeueInv s between values) ∧ s.queue.Ledger ∧ s.NoNodesBrought := by
  apply reached.invariant
  · intro s₀ started
    refine ⟨⟨[], [], start_invariant started⟩, ?_, ?_⟩
    · obtain ⟨⟨me, head, tail, apart, run⟩, -, -⟩ := started
      rw [ConcurrentDequeue.construct_eq _ me apart] at run
      have outcome : _ = s₀.queue := congrArg Prod.snd (Except.ok.inj run)
      intro a
      rw [← outcome]
      simp only [ConcurrentDequeue.allocations, ConcurrentDequeue.deletions, List.countP_cons,
        List.countP_nil, DequeueEvent.allocates, DequeueEvent.deletes, Function.update_apply]
      grind
    · exact ⟨started.2.2, fun thread _ _ same => by rw [started.2.1] at same; cases same⟩
  · rintro r l r' ⟨⟨between, values, inv⟩, ledger, unbrought⟩ offered ok served
    obtain ⟨s', between', values', served', progress⟩ := serve_progress inv offered
    have same : s' = r' := Except.ok.inj (served'.symm.trans served)
    subst same
    exact ⟨⟨between', values', progress.keeps inv⟩, progress.ledger inv (ofValues r l ok) ledger,
      progress.noNodesBrought (ofValues r l ok) unbrought⟩

omit [DecidableEq Thr] in
theorem Constructed.nothing_leaked [Inhabited T] (started : s.Constructed) (a : NodePtr) :
    ¬ s.Leaked [] a := by
  obtain ⟨⟨me, head, tail, apart, run⟩, -, -⟩ := started
  rw [ConcurrentDequeue.construct_eq _ me apart] at run
  have outcome : _ = s.queue := congrArg Prod.snd (Except.ok.inj run)
  rintro ⟨there, unlinked, -⟩
  rw [← outcome] at there unlinked
  simp only [Function.update_apply, ConcurrentDequeue.chain, List.nil_append, List.mem_cons,
    List.not_mem_nil, or_false, not_or] at there unlinked
  rw [if_neg unlinked.2, if_neg unlinked.1] at there
  cases there

theorem nodesKept_iff (inv : DequeueInv s between values) (ledger : s.queue.Ledger) :
    s.NodesKept ↔ ∀ a, ¬ s.Leaked between a := by
  constructor
  · rintro ⟨⟨between', values', shape, live⟩, -⟩ a ⟨there, unlinked, unheld⟩
    have same : s.queue.chain between' = s.queue.chain between := inv.shape.unique shape
    have balance := ledger a
    rw [if_pos there, (live a).2 (by rw [same]; exact not_or.mpr ⟨unlinked, unheld⟩)] at balance
    omega
  · intro kept
    have placed (a : NodePtr) (place : a ∈ s.queue.chain between ∨ s.Holds a) :
        (s.queue.nodes a).isSome := by
      rcases place with member | ⟨thread, brings | takes⟩
      · exact inv.arranged.live .list a member
      · exact inv.arranged.live (.pushing thread) a brings
      · exact inv.arranged.live (.popping thread) a takes
    have unplaced (a : NodePtr) (place : ¬ (a ∈ s.queue.chain between ∨ s.Holds a)) :
        s.queue.nodes a = none := by
      obtain ⟨unlinked, unheld⟩ := not_or.mp place
      by_contra there
      exact kept a ⟨Option.isSome_iff_ne_none.mpr there, unlinked, unheld⟩
    refine ⟨⟨between, values, inv.shape, ?_⟩, ?_⟩
    · intro a
      constructor
      · intro place
        rw [ledger a, if_pos (placed a place)]
      · intro place
        rw [ledger a, unplaced a place]
        rfl
    · intro idle me
      obtain ⟨q', run, gone, even⟩ := ConcurrentDequeue.destroyFrom_eq me (between ++ [s.queue.tail])
        s.queue.head s.queue rfl inv.shape.links (by simpa using inv.shape.last) inv.shape.distinct
        inv.shape.live
      have nothing (a : NodePtr) : q'.nodes a = none := by
        rw [gone a]
        by_cases member : a ∈ s.queue.chain between
        · exact if_pos member
        · refine (if_neg member).trans ?_
          apply unplaced a
          rintro (inside | ⟨thread, held⟩)
          · exact member inside
          · rw [idle] at held
            exact DequeueCall.has_none a held
      refine ⟨_, q', run, fun a => ⟨nothing a, ?_⟩⟩
      rw [even ledger a, nothing a]
      rfl

end runs
end DequeueState

open DequeueState in
theorem dequeue_keeps_nodes_iff {Thr T : Type} [DecidableEq Thr] [Inhabited T]
    {s : DequeueState Thr T}
    (reached : (dequeueSystem Thr T).Reachable (fun _ l => l.ofValues) s) :
    s.NodesKept ↔
      (dequeueSystem Thr T).Reachable (fun r l => l.ofValues ∧ r.FreesNode l) s := by
  refine reached.safe_iff NodesKept FreesNode ?_ ?_
  · intro s₀ started
    have start : (dequeueSystem Thr T).Reachable (fun _ l => l.ofValues) s₀ := ⟨s₀, started, .refl _⟩
    obtain ⟨-, ledger, -⟩ := value_invariant (fun _ _ => id) start
    exact (nodesKept_iff (start_invariant started) ledger).mpr fun a => started.nothing_leaked a
  · intro r l r' before offered ok served
    obtain ⟨⟨between, values, inv⟩, ledger, unbrought⟩ := value_invariant (fun _ _ => id) before
    obtain ⟨s', between', values', served', progress⟩ := serve_progress inv offered
    have same : s' = r' := Except.ok.inj (served'.symm.trans served)
    subst same
    rw [nodesKept_iff inv ledger, nodesKept_iff (progress.keeps inv) (progress.ledger inv ok ledger)]
    by_cases frees : r.FreesNode l
    · simp only [progress.leaked ok unbrought frees, frees, and_true]
    · refine iff_of_false ?_ fun both => frees both.2
      intro kept
      simp only [FreesNode, not_forall, not_not] at frees
      obtain ⟨thread, answer, node, move, current⟩ := frees
      exact kept node (progress.leaks inv move current)

section sample

instance (l : DequeueMove Nat Nat) : Decidable l.ofValues :=
  match l with
  | .make _ _ => .isFalse id
  | .call _ operation => inferInstanceAs (Decidable (operation.argument = none))
  | .run _ _ => .isTrue trivial

/-- Thread 1 pushes 10 and thread 2 takes it out with tryPopTail; both calls are
over. -/
def Sample.poppedDequeue : DequeueState Nat Nat :=
  ((dequeueSystem Nat Nat).follow (fun _ l => l.ofValues) Sample.emptyDequeue
    [.call 1 (.pushHead 10), .run 1 ⟨2, true⟩, .run 1 ⟨0, true⟩, .call 2 .tryPopTail,
      .run 2 ⟨0, true⟩, .run 2 ⟨0, true⟩]).get rfl

theorem Sample.poppedDequeue_reachable :
    (dequeueSystem Nat Nat).Reachable (fun _ l => l.ofValues) Sample.poppedDequeue :=
  Machine.reachable_of_follow Sample.emptyDequeue_constructed _ rfl

theorem Sample.poppedDequeue_idle (thread : Nat) : Sample.poppedDequeue.calls thread = none := by
  have calls : Sample.poppedDequeue.calls = Function.update (Function.update (Function.update
      (Function.update (Function.update (Function.update (fun _ => none)
        1 (some (.pushData .spinLock 10))) 1 (some (.locking .spinLock 2))) 1 none)
        2 (some (.pop .spinTrylock))) 2 (some (.unlinked .spinTrylock 2))) 2 none := rfl
  rw [calls]
  by_cases second : thread = 2
  · rw [second, Function.update_self]
  · simp [Function.update_of_ne second]

/-- The node of the value is still there after the destructor. -/
theorem tryPopTail_leaks :
    ¬ ∀ s : DequeueState Nat Nat,
      (dequeueSystem Nat Nat).Reachable (fun _ l => l.ofValues) s → s.NodesKept := by
  intro neverLeaks
  have kept := neverLeaks _ Sample.poppedDequeue_reachable
  obtain ⟨enough, q', run, gone⟩ := kept.destroyed Sample.poppedDequeue_idle 9
  have left : (ConcurrentDequeue.destroyFrom 9 (enough + 3) Sample.poppedDequeue.queue).toOption.map
      (fun r => (r.2.nodes 2).isSome) = some true := rfl
  rw [run (enough + 3) (by omega)] at left
  have there : some (q'.nodes 2).isSome = some true := left
  rw [(gone 2).1] at there
  cases there

theorem dequeue_keeps_nodes_iff_tryPopTail :
    Sample.poppedDequeue.NodesKept ↔
      (dequeueSystem Nat Nat).Reachable (fun r l => l.ofValues ∧ r.FreesNode l)
        Sample.poppedDequeue :=
  dequeue_keeps_nodes_iff Sample.poppedDequeue_reachable

end sample

end AsyncPing
