import AsyncPing.Core.DequeueSystem
import AsyncPing.Library.DoublyLinked

/-!
The nodes of a ConcurrentDequeue. Between the two sentinels they form a doubly
linked list that holds the values, the newest next to the head. The code under
the lock splices a node in or takes one out and touches no node but its own and
those of the list.
-/
namespace AsyncPing
namespace ConcurrentDequeue
open DoublyLinked
variable {Thr T : Type}

def next (q : ConcurrentDequeue Thr T) (a : NodePtr) : Option NodePtr :=
  (q.nodes a).bind DequeueNode.next

def prev (q : ConcurrentDequeue Thr T) (a : NodePtr) : Option NodePtr :=
  (q.nodes a).bind DequeueNode.prev

def data (q : ConcurrentDequeue Thr T) (a : NodePtr) : Option T :=
  (q.nodes a).map DequeueNode.data

/-- The sentinels and what is between them. -/
def chain (q : ConcurrentDequeue Thr T) (between : List NodePtr) : List NodePtr :=
  q.head :: (between ++ [q.tail])

structure Represents (q : ConcurrentDequeue Thr T) (between : List NodePtr) (values : List T) :
    Prop where
  links : Links q.next q.prev (q.chain between)
  first : q.prev q.head = none
  last : q.next q.tail = none
  distinct : (q.chain between).Nodup
  live : ∀ a ∈ q.chain between, (q.nodes a).isSome
  values : between.map q.data = values.map some

/-- A piece of code of one thread that uses nodes of this region only, makes and
deletes none and leaves the data as it is; `own` is what it enters at its end. -/
structure Edits (q : ConcurrentDequeue Thr T) (me : Thr) (region : List NodePtr)
    (own : List (DequeueEvent Thr T)) (q' : ConcurrentDequeue Thr T) : Prop where
  head : q'.head = q.head
  tail : q'.tail = q.tail
  cells : ∀ a, a ∉ region → q'.nodes a = q.nodes a
  data : ∀ a, q'.data a = q.data a
  trace : ∃ accesses, q'.trace = own ++ (accesses ++ q.trace) ∧
    ∀ e ∈ accesses, ∃ a ∈ region, e = .access me a

theorem Edits.live {q q' : ConcurrentDequeue Thr T} {me : Thr} {region : List NodePtr}
    {own : List (DequeueEvent Thr T)} (edits : q.Edits me region own q') (a : NodePtr) :
    (q'.nodes a).isSome = (q.nodes a).isSome := by
  have same := congrArg Option.isSome (edits.data a)
  simpa only [ConcurrentDequeue.data, Option.isSome_map] using same

/-! ## Running an accessor -/

section accessors
variable {q : ConcurrentDequeue Thr T} {me : Thr} {node : NodePtr} {β : Type}

@[simp] theorem log_nodes (e : DequeueEvent Thr T) : (q.log e).nodes = q.nodes := rfl
@[simp] theorem log_head (e : DequeueEvent Thr T) : (q.log e).head = q.head := rfl
@[simp] theorem log_tail (e : DequeueEvent Thr T) : (q.log e).tail = q.tail := rfl
@[simp] theorem log_trace (e : DequeueEvent Thr T) : (q.log e).trace = e :: q.trace := rfl
@[simp] theorem setNode_nodes (c : Option (DequeueNode T)) :
    (q.setNode node c).nodes = Function.update q.nodes node c := rfl
@[simp] theorem setNode_head (c : Option (DequeueNode T)) : (q.setNode node c).head = q.head := rfl
@[simp] theorem setNode_tail (c : Option (DequeueNode T)) : (q.setNode node c).tail = q.tail := rfl
@[simp] theorem setNode_trace (c : Option (DequeueNode T)) :
    (q.setNode node c).trace = q.trace := rfl

theorem readNode_bind (k : DequeueNode T → NodeCode Thr T β) :
    (readNode me node >>= k) q =
      (q.nodes node).elim (.error (.dead node)) fun cell => k cell (q.log (.access me node)) := by
  cases there : q.nodes node <;>
    simp only [readNode, bind_assoc, Exec.get_bind, there] <;> rfl

theorem writeNode_bind (f : DequeueNode T → DequeueNode T) (k : Unit → NodeCode Thr T β) :
    (writeNode me node f >>= k) q =
      (q.nodes node).elim (.error (.dead node)) fun cell =>
        k () ((q.log (.access me node)).setNode node (some (f cell))) := by
  simp only [writeNode, bind_assoc, readNode_bind]
  rfl

theorem deleteNode_bind (k : Unit → NodeCode Thr T β) :
    (deleteNode me node >>= k) q =
      (q.nodes node).elim (.error (.dead node)) fun _ =>
        k () ((q.log (.deleted me node)).setNode node none) := by
  cases there : q.nodes node <;>
    simp only [deleteNode, bind_assoc, Exec.get_bind, there] <;> rfl

theorem writeNode_apply (f : DequeueNode T → DequeueNode T) :
    writeNode me node f q = (q.nodes node).elim (.error (.dead node)) fun cell =>
      .ok ((), (q.log (.access me node)).setNode node (some (f cell))) := by
  have unit : (writeNode me node f >>= pure) q = _ := writeNode_bind f pure
  rw [bind_pure] at unit
  exact unit

theorem deleteNode_apply : deleteNode me node q =
    (q.nodes node).elim (.error (.dead node)) fun _ =>
      .ok ((), (q.log (.deleted me node)).setNode node none) := by
  have unit : (deleteNode me node >>= pure) q = _ := deleteNode_bind pure
  rw [bind_pure] at unit
  exact unit

theorem newNode_bind [Inhabited T] (k : Unit → NodeCode Thr T β) :
    (newNode me node >>= k) q =
      k () ((q.log (.allocated me node)).setNode node (some ⟨default, none, none⟩)) := rfl

theorem derefNode_bind (pointer : Option NodePtr) (k : NodePtr → NodeCode Thr T β) :
    (derefNode pointer >>= k) q = pointer.elim (.error .null) fun node => k node q := by
  cases pointer <;> rfl

end accessors

/-! ## Reading the shape -/

namespace Represents
variable {q : ConcurrentDequeue Thr T} {between : List NodePtr} {values : List T}

theorem length (rep : q.Represents between values) : between.length = values.length := by
  have same := congrArg List.length rep.values
  simpa only [List.length_map] using same

/-- What is outside the list does not matter. -/
theorem congr {q' : ConcurrentDequeue Thr T} (rep : q.Represents between values)
    (head : q'.head = q.head) (tail : q'.tail = q.tail)
    (cells : ∀ a ∈ q.chain between, q'.nodes a = q.nodes a) : q'.Represents between values := by
  have chain : q'.chain between = q.chain between := by rw [ConcurrentDequeue.chain, head, tail]; rfl
  have headIn : q.head ∈ q.chain between := .head _
  have tailIn : q.tail ∈ q.chain between := .tail _ (List.mem_append_right between (.head _))
  refine ⟨?_, ?_, ?_, ?_, ?_, ?_⟩
  · rw [chain]
    apply rep.links.congr
    · intro a member
      rw [next, cells a member, next]
    · intro a member
      rw [prev, cells a (List.mem_of_mem_tail member), prev]
  · rw [head, prev, cells _ headIn]
    exact rep.first
  · rw [tail, next, cells _ tailIn]
    exact rep.last
  · rw [chain]
    exact rep.distinct
  · intro a member
    rw [chain] at member
    rw [cells a member]
    exact rep.live a member
  · rw [← rep.values]
    apply List.map_congr_left
    intro a member
    rw [data, cells a (.tail _ (List.mem_append_left _ member)), data]

/-- Both walks meet the nodes of the list, in opposite order. -/
theorem walks (rep : q.Represents between values) (steps : Nat)
    (enough : between.length < steps) :
    walk q.next steps q.head = q.chain between ∧
      walk q.prev steps q.tail = (q.chain between).reverse := by
  have long : (between ++ [q.tail]).length ≤ steps := by
    rw [List.length_append, List.length_singleton]
    exact enough
  have order : (q.chain between).reverse = q.tail :: (between.reverse ++ [q.head]) := by
    simp [chain]
  constructor
  · refine rep.links.walk_eq (z := q.tail) ?_ rep.last steps long
    rw [← List.cons_append, List.getLast?_append]
    rfl
  · have backward : Links q.prev q.next (q.chain between).reverse :=
      (links_reverse _).mpr rep.links
    rw [order] at backward ⊢
    rw [List.length_append, List.length_singleton, ← List.length_reverse] at long
    refine backward.walk_eq (z := q.head) ?_ rep.first steps ?_
    · rw [← List.cons_append, List.getLast?_append]
      rfl
    · rw [List.length_append, List.length_singleton]
      exact long

/-- The nodes say which nodes are in the list. -/
theorem unique {between' : List NodePtr} {values' : List T} (rep : q.Represents between values)
    (other : q.Represents between' values') : q.chain between' = q.chain between := by
  have long : between.length < between.length + between'.length + 1 := by omega
  have long' : between'.length < between.length + between'.length + 1 := by omega
  rw [← (rep.walks _ long).1, (other.walks _ long').1]

/-- The first node of the chain that is not the head. -/
theorem cons (rep : q.Represents between values) : ∃ next rest,
    q.chain between = q.head :: next :: rest ∧ q.next q.head = some next := by
  cases between with
  | nil => exact ⟨q.tail, [], rfl, rep.links.1⟩
  | cons a between => exact ⟨a, between ++ [q.tail], rfl, rep.links.1⟩

end Represents
/-! ## The constructor -/

theorem construct_eq [Inhabited T] (q : ConcurrentDequeue Thr T) (me : Thr) {head tail : NodePtr}
    (apart : head ≠ tail) : construct me head tail q = .ok ((),
      { nodes := Function.update (Function.update q.nodes
          head (some ⟨default, some tail, none⟩)) tail (some ⟨default, none, some head⟩)
        head, tail
        trace := .access me tail :: .access me tail :: .access me head :: .access me head ::
          .allocated me tail :: .allocated me head :: q.trace }) := by
  simp only [construct, newNode_bind, Exec.modify_bind, writeNode_bind, writeNode_apply, log,
    setNode, Function.update_self, Option.elim_some, ne_eq, apart, apart.symm,
    not_false_eq_true, Function.update_of_ne, Function.update_idem]
  rw [Function.update_comm apart.symm, Function.update_idem, Function.update_idem]

theorem construct_represents [Inhabited T] {q₀ q : ConcurrentDequeue Thr T} {me : Thr}
    {head tail : NodePtr} (apart : head ≠ tail)
    (run : construct me head tail q₀ = .ok ((), q)) : q.Represents [] [] := by
  rw [construct_eq q₀ me apart] at run
  cases run
  have headNode : ∀ (f : NodePtr → Option (DequeueNode T)) (h t : Option (DequeueNode T)),
      Function.update (Function.update f head h) tail t head = h := by
    intro f h t
    rw [Function.update_of_ne apart, Function.update_self]
  refine ⟨⟨?_, ?_, trivial⟩, ?_, ?_, ?_, ?_, rfl⟩
  · simp only [next, headNode, Option.bind_some]
  · simp only [prev, Function.update_self, Option.bind_some]
  · simp only [prev, headNode, Option.bind_some]
  · simp only [next, Function.update_self, Option.bind_some]
  · simpa [chain] using apart
  · intro a member
    simp only [chain, List.nil_append, List.mem_cons, List.not_mem_nil, or_false] at member
    cases member with
    | inl same =>
        subst same
        simp only [headNode, Option.isSome_some]
    | inr same =>
        subst same
        simp only [Function.update_self, Option.isSome_some]

/-! ## A push under the lock -/

section push
variable {q : ConcurrentDequeue Thr T} {between : List NodePtr} {values : List T} {me : Thr}
  {node succ : NodePtr} {n h s : DequeueNode T}

/-- The dequeue after a push: the cells of the node, of the head and of the
node that was next to the head are written. -/
def pushed (q : ConcurrentDequeue Thr T) (me : Thr) (node succ : NodePtr)
    (n h s : DequeueNode T) : ConcurrentDequeue Thr T :=
  { q with
    nodes := Function.update (Function.update (Function.update q.nodes
      q.head (some { h with next := some node })) succ (some { s with prev := some node }))
      node (some { n with next := some succ, prev := some q.head })
    trace := .linked me node n.data :: ([.access me node, .access me succ, .access me node,
      .access me q.head, .access me node, .access me q.head] ++ q.trace) }

theorem pushed_nodes (a : NodePtr) : (q.pushed me node succ n h s).nodes a =
    if a = node then some { n with next := some succ, prev := some q.head }
    else if a = succ then some { s with prev := some node }
    else if a = q.head then some { h with next := some node }
    else q.nodes a := by
  simp only [pushed, Function.update_apply]

theorem pushed_next (atSucc : q.nodes succ = some s)
    (succHead : succ ≠ q.head) (a : NodePtr) : (q.pushed me node succ n h s).next a =
      if a = node then some succ else if a = q.head then some node else q.next a := by
  rw [next, pushed_nodes]
  split
  · rfl
  split
  · rename_i same
    rw [same, if_neg succHead, next, atSucc]
    rfl
  split <;> rfl

theorem pushed_prev (atHead : q.nodes q.head = some h) (a : NodePtr) :
    (q.pushed me node succ n h s).prev a =
      if a = node then some q.head else if a = succ then some node else q.prev a := by
  rw [prev, pushed_nodes]
  split
  · rfl
  split
  · rfl
  split
  · rename_i same
    rw [same, prev, atHead]
    rfl
  · rfl

theorem linkHead_eq (atHead : q.nodes q.head = some h) (leads : h.next = some succ)
    (atSucc : q.nodes succ = some s) (there : q.nodes node = some n) (nodeHead : node ≠ q.head)
    (nodeSucc : node ≠ succ) (succHead : succ ≠ q.head) :
    linkHead me node q = .ok ((), q.pushed me node succ n h s) := by
  simp only [linkHead, Exec.get_bind, readNode_bind, writeNode_bind, derefNode_bind,
    Exec.modify_apply, atHead, there, leads, atSucc, Option.elim_some, Function.update_self,
    ne_eq, nodeHead, nodeHead.symm, nodeSucc, nodeSucc.symm, succHead, not_false_eq_true,
    Function.update_of_ne, setNode, log]
  -- the node is written first and last
  rw [Function.update_comm nodeHead, Function.update_comm nodeSucc, Function.update_idem]
  rfl

/-- Only links change, and only those of three nodes. -/
theorem pushed_edits (atHead : q.nodes q.head = some h) (atSucc : q.nodes succ = some s)
    (there : q.nodes node = some n) {region : List NodePtr} (nodeIn : node ∈ region)
    (headIn : q.head ∈ region) (succIn : succ ∈ region) :
    q.Edits me region [.linked me node n.data] (q.pushed me node succ n h s) where
  head := rfl
  tail := rfl
  cells a outside := by
    have nodeOther : a ≠ node := fun same => outside (same ▸ nodeIn)
    have succOther : a ≠ succ := fun same => outside (same ▸ succIn)
    have headOther : a ≠ q.head := fun same => outside (same ▸ headIn)
    rw [pushed_nodes, if_neg nodeOther, if_neg succOther, if_neg headOther]
  data a := by
    rw [data, pushed_nodes, data]
    split
    · rename_i same
      rw [same, there]
      rfl
    split
    · rename_i same
      rw [same, atSucc]
      rfl
    split
    · rename_i same
      rw [same, atHead]
      rfl
    · rfl
  trace := by
    refine ⟨[.access me node, .access me succ, .access me node, .access me q.head,
      .access me node, .access me q.head], rfl, fun e member => ?_⟩
    simp only [List.mem_cons, List.not_mem_nil, or_false] at member
    rcases member with rfl | rfl | rfl | rfl | rfl | rfl
    · exact ⟨node, nodeIn, rfl⟩
    · exact ⟨succ, succIn, rfl⟩
    · exact ⟨node, nodeIn, rfl⟩
    · exact ⟨q.head, headIn, rfl⟩
    · exact ⟨node, nodeIn, rfl⟩
    · exact ⟨q.head, headIn, rfl⟩

theorem linkHead_represents (rep : q.Represents between values) (there : q.nodes node = some n)
    (apart : node ∉ q.chain between) :
    ∃ q', linkHead me node q = .ok ((), q') ∧
      q'.Represents (node :: between) (n.data :: values) ∧
      q.Edits me (node :: q.chain between) [.linked me node n.data] q' := by
  obtain ⟨succ, rest, chain, leads⟩ := rep.cons
  have links := rep.links
  have distinct := rep.distinct
  have headIn : q.head ∈ q.chain between := .head _
  have succIn : succ ∈ q.chain between := chain ▸ .tail _ (.head _)
  have nodeHead : node ≠ q.head := fun same => apart (same ▸ headIn)
  have nodeSucc : node ≠ succ := fun same => apart (same ▸ succIn)
  have succHead : succ ≠ q.head := by
    intro same
    rw [chain] at distinct
    exact (List.nodup_cons.mp distinct).1 (same ▸ .head _)
  obtain ⟨h, atHead⟩ := Option.isSome_iff_exists.mp (rep.live q.head headIn)
  obtain ⟨s, atSucc⟩ := Option.isSome_iff_exists.mp (rep.live succ succIn)
  have hLeads : h.next = some succ := by
    rw [next, atHead] at leads
    exact leads
  have edits : q.Edits me (node :: q.chain between) [.linked me node n.data]
      (q.pushed me node succ n h s) :=
    pushed_edits atHead atSucc there (.head _) (.tail _ headIn) (.tail _ succIn)
  refine ⟨_, linkHead_eq atHead hLeads atSucc there nodeHead nodeSucc succHead, ?_, edits⟩
  have longer : (q.pushed me node succ n h s).chain (node :: between) =
      q.head :: node :: succ :: rest := by
    have tail := (List.cons.inj chain).2
    change q.head :: node :: (between ++ [q.tail]) = _
    rw [tail]
  have tailIn : q.tail ∈ succ :: rest := by
    rw [← (List.cons.inj chain).2]
    exact List.mem_append_right between (.head _)
  have nodeTail : q.tail ≠ node := fun same => apart (same ▸ chain ▸ .tail _ tailIn)
  have headTail : q.tail ≠ q.head := by
    intro same
    rw [chain] at distinct
    exact (List.nodup_cons.mp distinct).1 (same ▸ tailIn)
  have sameData : (q.pushed me node succ n h s).data = q.data := funext edits.data
  refine ⟨?_, ?_, ?_, ?_, ?_, ?_⟩
  · rw [longer]
    rw [chain] at links distinct apart
    apply links.insert distinct apart
    · rw [pushed_next atSucc succHead, if_neg nodeHead.symm, if_pos rfl]
    · rw [pushed_next atSucc succHead, if_pos rfl]
    · rw [pushed_prev atHead, if_pos rfl]
    · rw [pushed_prev atHead, if_neg nodeSucc.symm, if_pos rfl]
    · intro a headOther nodeOther
      rw [pushed_next atSucc succHead, if_neg nodeOther, if_neg headOther]
    · intro a succOther nodeOther
      rw [pushed_prev atHead, if_neg nodeOther, if_neg succOther]
  · refine Eq.trans ?_ rep.first
    change (q.pushed me node succ n h s).prev q.head = _
    rw [pushed_prev atHead, if_neg nodeHead.symm, if_neg succHead.symm]
  · refine Eq.trans ?_ rep.last
    change (q.pushed me node succ n h s).next q.tail = _
    rw [pushed_next atSucc succHead, if_neg nodeTail, if_neg headTail]
  · rw [longer]
    rw [chain] at distinct apart
    simp only [List.nodup_cons, List.mem_cons, not_or] at distinct apart ⊢
    exact ⟨⟨nodeHead.symm, distinct.1⟩, apart.2, distinct.2⟩
  · intro a member
    rw [edits.live]
    rw [longer] at member
    rcases List.mem_cons.mp member with rfl | later
    · exact rep.live q.head headIn
    cases List.mem_cons.mp later with
    | inl same =>
        subst same
        rw [there]
        rfl
    | inr within => exact rep.live a (chain ▸ .tail _ within)
  · rw [sameData, List.map_cons, List.map_cons, rep.values, data, there]
    rfl

end push

/-! ## A pop under the lock -/

section pop
variable {q : ConcurrentDequeue Thr T} {between : List NodePtr} {values : List T} {me : Thr}
  {node p : NodePtr} {n t P : DequeueNode T}

/-- The dequeue after a pop: the cells of the tail and of the node before the
popped one are written. -/
def popped (q : ConcurrentDequeue Thr T) (me : Thr) (node p : NodePtr) (n t P : DequeueNode T) :
    ConcurrentDequeue Thr T :=
  { q with
    nodes := Function.update (Function.update q.nodes q.tail (some { t with prev := some p }))
      p (some { P with next := some q.tail })
    trace := .unlinked me node n.data :: ([.access me p, .access me q.tail, .access me q.tail,
      .access me node, .access me q.tail, .access me q.tail] ++ q.trace) }

theorem popped_nodes (a : NodePtr) : (q.popped me node p n t P).nodes a =
    if a = p then some { P with next := some q.tail }
    else if a = q.tail then some { t with prev := some p }
    else q.nodes a := by
  simp only [popped, Function.update_apply]

theorem popped_next (atTail : q.nodes q.tail = some t) (a : NodePtr) :
    (q.popped me node p n t P).next a = if a = p then some q.tail else q.next a := by
  rw [next, popped_nodes]
  split
  · rfl
  split
  · rename_i same
    rw [same, next, atTail]
    rfl
  · rfl

theorem popped_prev (atPrev : q.nodes p = some P) (prevTail : p ≠ q.tail) (a : NodePtr) :
    (q.popped me node p n t P).prev a = if a = q.tail then some p else q.prev a := by
  rw [prev, popped_nodes]
  split
  · rename_i same
    rw [same, if_neg prevTail, prev, atPrev]
    rfl
  split <;> rfl

theorem unlinkTail_eq (atTail : q.nodes q.tail = some t) (back : t.prev = some node)
    (nonempty : node ≠ q.head) (there : q.nodes node = some n) (before : n.prev = some p)
    (atPrev : q.nodes p = some P) (prevTail : p ≠ q.tail) :
    unlinkTail me q = .ok (some node, q.popped me node p n t P) := by
  simp only [unlinkTail, Exec.get_bind, readNode_bind, writeNode_bind, derefNode_bind,
    Exec.modify_bind, Exec.pure_apply, atTail, there, before, atPrev, back, Option.elim_some,
    Function.update_self, ne_eq, prevTail, not_false_eq_true, Function.update_of_ne, setNode, log,
    Option.some.injEq, nonempty, if_false]
  rfl

theorem popped_edits (atTail : q.nodes q.tail = some t) (atPrev : q.nodes p = some P)
    {region : List NodePtr} (nodeIn : node ∈ region) (tailIn : q.tail ∈ region)
    (prevIn : p ∈ region) :
    q.Edits me region [.unlinked me node n.data] (q.popped me node p n t P) where
  head := rfl
  tail := rfl
  cells a outside := by
    have prevOther : a ≠ p := fun same => outside (same ▸ prevIn)
    have tailOther : a ≠ q.tail := fun same => outside (same ▸ tailIn)
    rw [popped_nodes, if_neg prevOther, if_neg tailOther]
  data a := by
    rw [data, popped_nodes, data]
    split
    · rename_i same
      rw [same, atPrev]
      rfl
    split
    · rename_i same
      rw [same, atTail]
      rfl
    · rfl
  trace := by
    refine ⟨[.access me p, .access me q.tail, .access me q.tail, .access me node,
      .access me q.tail, .access me q.tail], rfl, fun e member => ?_⟩
    simp only [List.mem_cons, List.not_mem_nil, or_false] at member
    rcases member with rfl | rfl | rfl | rfl | rfl | rfl
    · exact ⟨p, prevIn, rfl⟩
    · exact ⟨q.tail, tailIn, rfl⟩
    · exact ⟨q.tail, tailIn, rfl⟩
    · exact ⟨node, nodeIn, rfl⟩
    · exact ⟨q.tail, tailIn, rfl⟩
    · exact ⟨q.tail, tailIn, rfl⟩

theorem unlinkTail_empty (me : Thr) (rep : q.Represents [] values) :
    unlinkTail me q = .ok (none, q.log (.access me q.tail)) := by
  obtain ⟨t, atTail⟩ := Option.isSome_iff_exists.mp (rep.live q.tail (.tail _ (.head _)))
  have back : q.prev q.tail = some q.head := rep.links.2.1
  rw [prev, atTail] at back
  have leads : t.prev = some q.head := back
  simp only [unlinkTail, Exec.get_bind, readNode_bind, atTail, leads, Option.elim_some, if_true]
  rfl

theorem unlinkTail_represents {v : T} (rep : q.Represents (between ++ [node]) (values ++ [v])) :
    ∃ q', unlinkTail me q = .ok (some node, q') ∧ q'.Represents between values ∧
      q.Edits me (q.chain (between ++ [node])) [.unlinked me node v] q' := by
  obtain ⟨l, p, lastOf⟩ : ∃ l p, q.head :: between = l ++ [p] :=
    ⟨_, _, (List.dropLast_append_getLast (List.cons_ne_nil q.head between)).symm⟩
  have chain : q.chain (between ++ [node]) = l ++ [p, node, q.tail] := by
    change q.head :: (between ++ [node] ++ [q.tail]) = _
    rw [← List.cons_append, ← List.cons_append, lastOf]
    simp
  have shorter : q.head :: (between ++ [q.tail]) = l ++ [p, q.tail] := by
    rw [← List.cons_append, lastOf]
    simp
  have links := rep.links
  have distinct := rep.distinct
  have live := rep.live
  rw [chain] at links distinct live
  have inside := (List.sublist_append_right l [p, node, q.tail]).nodup distinct
  simp only [List.nodup_cons, List.mem_cons, List.not_mem_nil, or_false, not_or] at inside
  obtain ⟨⟨-, prevTail⟩, -⟩ := inside
  obtain ⟨-, -, before, -, back, -⟩ := (DoublyLinked.links_append l p [node, q.tail]).mp links
  obtain ⟨P, atPrev⟩ := Option.isSome_iff_exists.mp (live p (by simp))
  obtain ⟨n, there⟩ := Option.isSome_iff_exists.mp (live node (by simp))
  obtain ⟨t, atTail⟩ := Option.isSome_iff_exists.mp (live q.tail (by simp))
  rw [prev, there] at before
  rw [prev, atTail] at back
  have first := rep.distinct
  rw [ConcurrentDequeue.chain, List.nodup_cons] at first
  have nodeHead : node ≠ q.head := fun same => first.1 (same ▸ by simp)
  have headTail : q.head ≠ q.tail := fun same => first.1 (same ▸ by simp)
  have carried := rep.values
  rw [List.map_append, List.map_append] at carried
  obtain ⟨rest, last⟩ := List.append_inj' carried rfl
  have value : n.data = v := by
    simpa [data, there] using last
  have edits : q.Edits me (q.chain (between ++ [node])) [.unlinked me node n.data]
      (q.popped me node p n t P) :=
    popped_edits atTail atPrev (by rw [chain]; simp) (by rw [chain]; simp) (by rw [chain]; simp)
  rw [value] at edits
  have sameData : (q.popped me node p n t P).data = q.data := funext edits.data
  refine ⟨_, unlinkTail_eq atTail back nodeHead there before atPrev prevTail,
    ⟨?_, ?_, ?_, ?_, ?_, ?_⟩, edits⟩
  · change DoublyLinked.Links _ _ (q.head :: (between ++ [q.tail]))
    rw [shorter]
    apply links.remove distinct
    · rw [popped_next atTail, if_pos rfl]
    · rw [popped_prev atPrev prevTail, if_pos rfl]
    · intro a other
      rw [popped_next atTail, if_neg other]
    · intro a other
      rw [popped_prev atPrev prevTail, if_neg other]
  · refine Eq.trans ?_ rep.first
    change (q.popped me node p n t P).prev q.head = _
    rw [popped_prev atPrev prevTail, if_neg headTail]
  · refine Eq.trans ?_ rep.last
    change (q.popped me node p n t P).next q.tail = _
    rw [popped_next atTail, if_neg (Ne.symm prevTail)]
  · change (q.head :: (between ++ [q.tail])).Nodup
    rw [shorter]
    refine List.Nodup.sublist ?_ distinct
    exact (List.Sublist.refl l).append (.cons_cons p (.cons node (.refl _)))
  · intro a member
    change a ∈ q.head :: (between ++ [q.tail]) at member
    rw [edits.live]
    refine live a ?_
    rw [shorter] at member
    simp only [List.mem_append, List.mem_cons] at member ⊢
    grind
  · rw [sameData]
    exact rest

end pop
end ConcurrentDequeue
end AsyncPing
