import AsyncPing.Metatheory.DequeueShape

/-!
What holds between any two pieces of code on a ConcurrentDequeue. Every node is
in one place at most: in the list, with a caller, or with the one thread that
brings it or has taken it out. The history of the critical sections accounts for
the values.
-/
namespace AsyncPing

/-! ## Reading the trace -/

/-- How far the call of a thread has got: not begun, before its critical section
has had an effect, or after it, with the value it has taken. -/
inductive CallStage (T : Type)
  | idle
  | called (value : Option T)
  | done (ret : Option T)

namespace DequeueEvent
variable {Thr T : Type}

/-- The value that a critical section has put into the queue. -/
@[simp] def pushed : DequeueEvent Thr T → Option T
  | linked _ _ data => some data
  | called _ _ | access _ _ | made _ | allocated _ _ | deleted _ _ | unlinked _ _ _
  | returned _ _ _ => none

/-- The value that a critical section has taken out of the queue. -/
@[simp] def taken : DequeueEvent Thr T → Option T
  | unlinked _ _ data => some data
  | called _ _ | access _ _ | made _ | allocated _ _ | deleted _ _ | linked _ _ _
  | returned _ _ _ => none

/-- The stage that the thread enters. -/
@[simp] def enters [DecidableEq Thr] (thread : Thr) : DequeueEvent Thr T → Option (CallStage T)
  | called other value => if other = thread then some (.called value) else none
  | linked other _ _ => if other = thread then some (.done none) else none
  | unlinked other _ data => if other = thread then some (.done (some data)) else none
  | returned other _ _ => if other = thread then some .idle else none
  | access _ _ | made _ | allocated _ _ | deleted _ _ => none

/-- The event is in order at these stages: a call begins when the last one is over,
a push links once the value it was called with, a pop takes one value, and a call
returns what its critical section has done. -/
@[simp] def Follows (stages : Thr → CallStage T) : DequeueEvent Thr T → Prop
  | called thread _ => stages thread = .idle
  | linked thread _ data => stages thread = .called (some data)
  | unlinked thread _ _ => stages thread = .called none
  | returned thread true ret => stages thread = .done ret
  | returned thread false ret => ret = none ∧ ∃ value, stages thread = .called value
  | access _ _ | made _ | allocated _ _ | deleted _ _ => True

/-- The thread reads, writes or deletes the node. -/
def Uses (thread : Thr) (node : NodePtr) : DequeueEvent Thr T → Prop
  | access t a | deleted t a => t = thread ∧ a = node
  | called _ _ | made _ | allocated _ _ | linked _ _ _ | unlinked _ _ _ | returned _ _ _ => False

end DequeueEvent

section trace
variable {Thr T : Type}

/-- The stage of a thread after this history, newest event first. -/
def stage [DecidableEq Thr] (thread : Thr) (tr : List (DequeueEvent Thr T)) : CallStage T :=
  (tr.findSome? (DequeueEvent.enters thread)).getD .idle

/-- Every critical section lies in a call of its thread, and every call returns
what its critical section has done. -/
def Linearized [DecidableEq Thr] : List (DequeueEvent Thr T) → Prop
  | [] => True
  | e :: tr => e.Follows (fun thread => stage thread tr) ∧ Linearized tr

/-- The thread that has taken the node at this address out of the queue. -/
def takenOutBy (node : NodePtr) : List (DequeueEvent Thr T) → Option Thr
  | [] => none
  | .unlinked thread a _ :: tr => if a = node then some thread else takenOutBy node tr
  | .made a :: tr | .allocated _ a :: tr => if a = node then none else takenOutBy node tr
  | .called _ _ :: tr | .access _ _ :: tr | .deleted _ _ :: tr | .linked _ _ _ :: tr
  | .returned _ _ _ :: tr => takenOutBy node tr

/-- A node once taken out is reached by no other thread. -/
def Exclusive : List (DequeueEvent Thr T) → Prop
  | [] => True
  | e :: tr => (∀ thread node owner, e.Uses thread node → takenOutBy node tr = some owner →
      thread = owner) ∧ Exclusive tr

@[simp] theorem stage_cons [DecidableEq Thr] (thread : Thr) (e : DequeueEvent Thr T)
    (tr : List (DequeueEvent Thr T)) :
    stage thread (e :: tr) = (e.enters thread).getD (stage thread tr) := by
  rw [stage, List.findSome?_cons]
  cases e.enters thread <;> rfl

variable {thread : Thr} {region : List NodePtr} {acc tr : List (DequeueEvent Thr T)}
  (accesses : ∀ e ∈ acc, ∃ a ∈ region, e = .access thread a)
include accesses

theorem filterMap_accesses {α : Type} (select : DequeueEvent Thr T → Option α)
    (skips : ∀ a, select (.access thread a) = none) :
    (acc ++ tr).filterMap select = tr.filterMap select := by
  rw [List.filterMap_append]
  have nothing : acc.filterMap select = [] := by
    apply List.filterMap_eq_nil_iff.mpr
    intro e member
    obtain ⟨a, -, rfl⟩ := accesses e member
    exact skips a
  rw [nothing, List.nil_append]

theorem pushed_accesses :
    (acc ++ tr).filterMap DequeueEvent.pushed = tr.filterMap DequeueEvent.pushed :=
  filterMap_accesses accesses _ fun _ => rfl

theorem taken_accesses :
    (acc ++ tr).filterMap DequeueEvent.taken = tr.filterMap DequeueEvent.taken :=
  filterMap_accesses accesses _ fun _ => rfl

theorem stage_accesses [DecidableEq Thr] (t : Thr) : stage t (acc ++ tr) = stage t tr := by
  induction acc with
  | nil => rfl
  | cons e acc ih =>
      obtain ⟨a, -, rfl⟩ := accesses e (.head _)
      rw [List.cons_append, stage_cons]
      exact ih fun e member => accesses e (.tail _ member)

theorem linearized_accesses [DecidableEq Thr] (linearized : Linearized tr) :
    Linearized (acc ++ tr) := by
  induction acc with
  | nil => exact linearized
  | cons e acc ih =>
      obtain ⟨a, -, rfl⟩ := accesses e (.head _)
      exact ⟨trivial, ih fun e member => accesses e (.tail _ member)⟩

theorem takenOutBy_accesses (node : NodePtr) : takenOutBy node (acc ++ tr) = takenOutBy node tr := by
  induction acc with
  | nil => rfl
  | cons e acc ih =>
      obtain ⟨a, -, rfl⟩ := accesses e (.head _)
      exact ih fun e member => accesses e (.tail _ member)

theorem exclusive_accesses (exclusive : Exclusive tr)
    (mine : ∀ a ∈ region, ∀ owner, takenOutBy a tr = some owner → thread = owner) :
    Exclusive (acc ++ tr) := by
  induction acc with
  | nil => exact exclusive
  | cons e acc ih =>
      have later : ∀ e ∈ acc, ∃ a ∈ region, e = .access thread a :=
        fun e member => accesses e (.tail _ member)
      obtain ⟨a, inside, rfl⟩ := accesses e (.head _)
      refine ⟨?_, ih later⟩
      rintro t node owner ⟨rfl, rfl⟩ taken
      have before : takenOutBy a tr = some owner := (takenOutBy_accesses later a).symm.trans taken
      exact mine a inside owner before

end trace

/-! ## Where the nodes are -/

namespace DequeueCall
variable {T : Type}

/-- A node that the call still has to link, or to delete when refused. -/
@[simp] def brings : DequeueCall T → Option NodePtr
  | locking _ node | refused node | pushNode _ node => some node
  | pushData _ _ | pop _ | unlinked _ _ => none

/-- A node that the call has taken out and not yet read. -/
@[simp] def takes : DequeueCall T → Option NodePtr
  | unlinked _ node => some node
  | locking _ _ | refused _ | pushNode _ _ | pushData _ _ | pop _ => none

/-- What the history has to say about a thread that is here. -/
@[simp] def stage {Thr : Type} (q : ConcurrentDequeue Thr T) : DequeueCall T → CallStage T
  | pushData _ data => .called (some data)
  | locking _ node | refused node | pushNode _ node => .called (q.data node)
  | pop _ => .called none
  | unlinked _ node => .done (q.data node)

end DequeueCall

inductive NodePlace (Thr : Type)
  | list
  | callers
  | pushing (thread : Thr)
  | popping (thread : Thr)
  deriving DecidableEq

namespace DequeueState
variable {Thr T : Type}

/-- The node is in this place. -/
def Occupies (s : DequeueState Thr T) (between : List NodePtr) (node : NodePtr) : NodePlace Thr → Prop
  | .list => node ∈ s.queue.chain between
  | .callers => node ∈ s.callers
  | .pushing thread => (s.calls thread).bind DequeueCall.brings = some node
  | .popping thread => (s.calls thread).bind DequeueCall.takes = some node

/-- The stage of the call of this thread. -/
def callStage (s : DequeueState Thr T) (thread : Thr) : CallStage T :=
  (s.calls thread).elim .idle (DequeueCall.stage s.queue)

/-- A node in a place is there, and in no other place; a node that was taken out
is only with the thread that took it. -/
structure Arranged (s : DequeueState Thr T) (between : List NodePtr) : Prop where
  live : ∀ p a, s.Occupies between a p → (s.queue.nodes a).isSome
  apart : ∀ p p' a, s.Occupies between a p → s.Occupies between a p' → p = p'
  callers : s.callers.Nodup
  owners : ∀ a owner p, takenOutBy a s.queue.trace = some owner → s.Occupies between a p →
    p = .popping owner

/-- The values in the queue and those taken are the values pushed, in order; the
history tells how far every call has got. -/
structure Accounted [DecidableEq Thr] (s : DequeueState Thr T) (values : List T) : Prop where
  order : s.queue.trace.filterMap DequeueEvent.pushed =
    values ++ s.queue.trace.filterMap DequeueEvent.taken
  stages : ∀ thread, stage thread s.queue.trace = s.callStage thread
  linearized : Linearized s.queue.trace

structure DequeueInv [DecidableEq Thr] (s : DequeueState Thr T) (between : List NodePtr)
    (values : List T) : Prop where
  shape : s.queue.Represents between values
  arranged : s.Arranged between
  accounted : s.Accounted values
  exclusive : Exclusive s.queue.trace

section current
variable {s : DequeueState Thr T} {between : List NodePtr} {thread : Thr} {call : DequeueCall T}
  {node : NodePtr} (current : s.calls thread = some call)
include current

theorem occupies_pushing (brings : call.brings = some node) :
    s.Occupies between node (.pushing thread) := by
  change (s.calls thread).bind DequeueCall.brings = some node
  rw [current]
  exact brings

theorem occupies_popping (takes : call.takes = some node) :
    s.Occupies between node (.popping thread) := by
  change (s.calls thread).bind DequeueCall.takes = some node
  rw [current]
  exact takes

theorem occupies_held (held : call.brings = some node ∨ call.takes = some node) :
    ∃ p, s.Occupies between node p ∧ (p = .pushing thread ∨ p = .popping thread) := by
  cases held with
  | inl brings => exact ⟨_, occupies_pushing current brings, .inl rfl⟩
  | inr takes => exact ⟨_, occupies_popping current takes, .inr rfl⟩

theorem callStage_of_call : s.callStage thread = call.stage s.queue := by
  rw [callStage, current]
  rfl

end current

/-! ## A node changes its place -/

section places
variable [DecidableEq Thr] {s s' : DequeueState Thr T} {between between' : List NodePtr}
  {thread : Thr} {current : Option (DequeueCall T)}
  (calls : s'.calls = Function.update s.calls thread current)
include calls

/-- The places after one thread has gone on, when at most this node has moved. -/
theorem places_move {node : NodePtr} {dest : Option (NodePlace Thr)}
    (source : ∀ p, s.Occupies between node p →
      p = .list ∨ p = .callers ∨ p = .pushing thread ∨ p = .popping thread)
    (list : ∀ a ∈ s'.queue.chain between',
      if a = node then dest = some .list else a ∈ s.queue.chain between)
    (callers : ∀ a ∈ s'.callers, if a = node then dest = some .callers else a ∈ s.callers)
    (brings : ∀ a, current.bind DequeueCall.brings = some a →
      a = node ∧ dest = some (.pushing thread))
    (takes : ∀ a, current.bind DequeueCall.takes = some a →
      a = node ∧ dest = some (.popping thread)) (a : NodePtr) (p : NodePlace Thr)
    (occupies : s'.Occupies between' a p) :
    if a = node then dest = some p else s.Occupies between a p := by
  cases p with
  | list => exact list a occupies
  | callers => exact callers a occupies
  | pushing other =>
      rw [Occupies, calls] at occupies
      by_cases same : other = thread
      · subst same
        rw [Function.update_self] at occupies
        obtain ⟨here, moved⟩ := brings a occupies
        rw [if_pos here]
        exact moved
      · rw [Function.update_of_ne same] at occupies
        rw [if_neg]
        · exact occupies
        · intro here
          subst here
          rcases source (.pushing other) occupies with h | h | h | h <;> simp_all
  | popping other =>
      rw [Occupies, calls] at occupies
      by_cases same : other = thread
      · subst same
        rw [Function.update_self] at occupies
        obtain ⟨here, moved⟩ := takes a occupies
        rw [if_pos here]
        exact moved
      · rw [Function.update_of_ne same] at occupies
        rw [if_neg]
        · exact occupies
        · intro here
          subst here
          rcases source (.popping other) occupies with h | h | h | h <;> simp_all

/-- The places after one thread has gone on with no node moved. -/
theorem places_keep (list : ∀ a ∈ s'.queue.chain between', a ∈ s.queue.chain between)
    (callers : ∀ a ∈ s'.callers, a ∈ s.callers)
    (brings : ∀ a, current.bind DequeueCall.brings = some a →
      (s.calls thread).bind DequeueCall.brings = some a)
    (takes : ∀ a, current.bind DequeueCall.takes = some a →
      (s.calls thread).bind DequeueCall.takes = some a) (a : NodePtr) (p : NodePlace Thr)
    (occupies : s'.Occupies between' a p) : s.Occupies between a p := by
  cases p with
  | list => exact list a occupies
  | callers => exact callers a occupies
  | pushing other =>
      rw [Occupies, calls] at occupies
      by_cases same : other = thread
      · subst same
        rw [Function.update_self] at occupies
        exact brings a occupies
      · rw [Function.update_of_ne same] at occupies
        exact occupies
  | popping other =>
      rw [Occupies, calls] at occupies
      by_cases same : other = thread
      · subst same
        rw [Function.update_self] at occupies
        exact takes a occupies
      · rw [Function.update_of_ne same] at occupies
        exact occupies

end places

namespace Arranged
variable {s s' : DequeueState Thr T} {between between' : List NodePtr}

/-- One node may move, to `dest` or out of reach; the others stay where they are
or go out of reach. -/
theorem move (arranged : s.Arranged between) (node : NodePtr) (dest : Option (NodePlace Thr))
    (places : ∀ a p, s'.Occupies between' a p →
      if a = node then dest = some p else s.Occupies between a p)
    (live : ∀ a, a ≠ node → (s.queue.nodes a).isSome → (s'.queue.nodes a).isSome)
    (there : dest.isSome → (s'.queue.nodes node).isSome) (callers : s'.callers.Nodup)
    (trace : ∀ a, a ≠ node → takenOutBy a s'.queue.trace = takenOutBy a s.queue.trace)
    (owner : ∀ o p, takenOutBy node s'.queue.trace = some o → dest = some p → p = .popping o) :
    s'.Arranged between' where
  live p a occupies := by
    have place := places a p occupies
    by_cases same : a = node
    · rw [if_pos same] at place
      rw [same]
      exact there (by rw [place]; rfl)
    · rw [if_neg same] at place
      exact live a same (arranged.live p a place)
  apart p p' a occupies occupies' := by
    have place := places a p occupies
    have place' := places a p' occupies'
    by_cases same : a = node
    · rw [if_pos same] at place place'
      exact Option.some.inj (place.symm.trans place')
    · rw [if_neg same] at place place'
      exact arranged.apart p p' a place place'
  callers := callers
  owners a o p taken occupies := by
    have place := places a p occupies
    by_cases same : a = node
    · rw [if_pos same] at place
      rw [same] at taken
      exact owner o p taken place
    · rw [if_neg same] at place
      rw [trace a same] at taken
      exact arranged.owners a o p taken place

/-- Nothing is anywhere it was not before. -/
theorem keep (arranged : s.Arranged between)
    (places : ∀ a p, s'.Occupies between' a p → s.Occupies between a p)
    (live : ∀ a, (s.queue.nodes a).isSome → (s'.queue.nodes a).isSome)
    (callers : s'.callers.Nodup)
    (trace : ∀ a, takenOutBy a s'.queue.trace = takenOutBy a s.queue.trace) :
    s'.Arranged between' where
  live p a occupies := live a (arranged.live p a (places a p occupies))
  apart p p' a occupies occupies' :=
    arranged.apart p p' a (places a p occupies) (places a p' occupies')
  callers := callers
  owners a o p taken occupies :=
    arranged.owners a o p (trace a ▸ taken) (places a p occupies)

/-- A node beside the list moves, or is made or deleted; the list is untouched. -/
theorem aside [DecidableEq Thr] {thread : Thr} {current : Option (DequeueCall T)}
    (arranged : s.Arranged between) (node : NodePtr) (dest : Option (NodePlace Thr))
    (calls : s'.calls = Function.update s.calls thread current)
    (source : ∀ p, s.Occupies between node p →
      p = .callers ∨ p = .pushing thread ∨ p = .popping thread)
    (head : s'.queue.head = s.queue.head) (tail : s'.queue.tail = s.queue.tail)
    (cells : ∀ a, a ≠ node → s'.queue.nodes a = s.queue.nodes a)
    (there : dest.isSome → (s'.queue.nodes node).isSome)
    (callers : ∀ a ∈ s'.callers, if a = node then dest = some .callers else a ∈ s.callers)
    (nodup : s'.callers.Nodup)
    (brings : ∀ a, current.bind DequeueCall.brings = some a →
      a = node ∧ dest = some (.pushing thread))
    (takes : ∀ a, current.bind DequeueCall.takes = some a →
      a = node ∧ dest = some (.popping thread))
    (trace : ∀ a, a ≠ node → takenOutBy a s'.queue.trace = takenOutBy a s.queue.trace)
    (owner : ∀ o p, takenOutBy node s'.queue.trace = some o → dest = some p → p = .popping o) :
    s'.Arranged between := by
  have chain : s'.queue.chain between = s.queue.chain between := by
    rw [ConcurrentDequeue.chain, head, tail]
    rfl
  apply arranged.move node dest ?_ ?_ there nodup trace owner
  · apply places_move calls
    · exact fun p here => .inr (source p here)
    · intro a member
      rw [chain] at member
      rw [if_neg]
      · exact member
      · intro here
        subst here
        have elsewhere := source .list member
        simp at elsewhere
    · exact callers
    · exact brings
    · exact takes
  · intro a other live
    rw [cells a other]
    exact live

/-- A node that is not there is in no place. -/
theorem nowhere (arranged : s.Arranged between) {node : NodePtr}
    (free : s.queue.nodes node = none) (p : NodePlace Thr) : ¬ s.Occupies between node p := by
  intro occupies
  have live := arranged.live p node occupies
  rw [free] at live
  cases live

/-- The nodes a thread works on were taken out by none but itself. -/
theorem mine (arranged : s.Arranged between) {thread : Thr} {a : NodePtr} {p : NodePlace Thr}
    (occupies : s.Occupies between a p)
    (reach : p = .list ∨ p = .pushing thread ∨ p = .popping thread) (owner : Thr)
    (taken : takenOutBy a s.queue.trace = some owner) : thread = owner := by
  have place := arranged.owners a owner p taken occupies
  subst place
  rcases reach with other | other | same
  · cases other
  · cases other
  · exact (NodePlace.popping.inj same).symm

end Arranged

/-! ## What the calls return -/

theorem callStage_other {s s' : DequeueState Thr T} {other : Thr}
    (calls : s'.calls other = s.calls other)
    (data : ∀ call a, s.calls other = some call → call.brings = some a ∨ call.takes = some a →
      s'.queue.data a = s.queue.data a) :
    s'.callStage other = s.callStage other := by
  rw [callStage, callStage, calls]
  cases running : s.calls other with
  | none => rfl
  | some call =>
      cases call with
      | pushData lock v => rfl
      | pop lock => rfl
      | locking lock node => exact congrArg CallStage.called (data _ node running (.inl rfl))
      | refused node => exact congrArg CallStage.called (data _ node running (.inl rfl))
      | pushNode lock node => exact congrArg CallStage.called (data _ node running (.inl rfl))
      | unlinked lock node => exact congrArg CallStage.done (data _ node running (.inr rfl))

theorem stage_other [DecidableEq Thr] {own tr : List (DequeueEvent Thr T)} {other : Thr}
    (theirs : ∀ e ∈ own, e.enters other = none) : stage other (own ++ tr) = stage other tr := by
  induction own with
  | nil => rfl
  | cons e own ih =>
      rw [List.cons_append, stage_cons, theirs e (.head _)]
      exact ih fun e member => theirs e (.tail _ member)

/-- One thread goes on and enters `own`: only its own part of the books has to be
balanced. -/
theorem Accounted.extend [DecidableEq Thr] {s s' : DequeueState Thr T} {values values' : List T}
    (accounted : s.Accounted values) (thread : Thr) (region : List NodePtr)
    (own acc : List (DequeueEvent Thr T)) (trace : s'.queue.trace = own ++ (acc ++ s.queue.trace))
    (accesses : ∀ e ∈ acc, ∃ a ∈ region, e = .access thread a)
    (calls : ∀ other, other ≠ thread → s'.calls other = s.calls other)
    (data : ∀ other call a, other ≠ thread → s.calls other = some call →
      call.brings = some a ∨ call.takes = some a → s'.queue.data a = s.queue.data a)
    (theirs : ∀ other, other ≠ thread → ∀ e ∈ own, e.enters other = none)
    (order : own.filterMap DequeueEvent.pushed ++ values =
      values' ++ own.filterMap DequeueEvent.taken)
    (mine : ∀ tr, stage thread tr = s.callStage thread →
      stage thread (own ++ tr) = s'.callStage thread ∧
        (Linearized tr → Linearized (own ++ tr))) :
    s'.Accounted values' := by
  have split {α : Type} (select : DequeueEvent Thr T → Option α) :
      s'.queue.trace.filterMap select =
        own.filterMap select ++ (acc ++ s.queue.trace).filterMap select := by
    rw [trace]
    exact List.filterMap_append
  have before (t : Thr) : stage t (acc ++ s.queue.trace) = s.callStage t :=
    (stage_accesses accesses t).trans (accounted.stages t)
  obtain ⟨now, follows⟩ := mine (acc ++ s.queue.trace) (before thread)
  constructor
  · rw [split, split, pushed_accesses accesses, taken_accesses accesses, accounted.order,
      ← List.append_assoc, order, List.append_assoc]
  · intro other
    rw [trace]
    by_cases same : other = thread
    · rw [same]
      exact now
    · rw [stage_other (theirs other same), before, callStage_other (calls other same)]
      exact fun call a => data other call a same
  · rw [trace]
    exact follows (linearized_accesses accesses accounted.linearized)

section inv
variable [DecidableEq Thr] {s : DequeueState Thr T} {between : List NodePtr} {values : List T}
  (inv : DequeueInv s between values)
include inv

/-- The list is empty or has a last node. -/
theorem DequeueInv.last_cases : (between = [] ∧ values = []) ∨
    ∃ between' node values' v, between = between' ++ [node] ∧ values = values' ++ [v] := by
  have length := inv.shape.length
  cases List.eq_nil_or_concat' between with
  | inl none =>
      refine .inl ⟨none, List.length_eq_zero_iff.mp ?_⟩
      rw [← length, none]
      rfl
  | inr both =>
      obtain ⟨between', node, some⟩ := both
      cases List.eq_nil_or_concat' values with
      | inl none =>
          rw [none, some] at length
          simp at length
      | inr both =>
          obtain ⟨values', v, some'⟩ := both
          exact .inr ⟨between', node, values', v, some, some'⟩

/-- A node that a call brings is there and not in the list. -/
theorem DequeueInv.brought {thread : Thr} {call : DequeueCall T} {node : NodePtr}
    (current : s.calls thread = some call) (brings : call.brings = some node) :
    ∃ n, s.queue.nodes node = some n ∧ node ∉ s.queue.chain between := by
  have occupies : s.Occupies between node (.pushing thread) := occupies_pushing current brings
  obtain ⟨n, there⟩ := Option.isSome_iff_exists.mp (inv.arranged.live _ _ occupies)
  refine ⟨n, there, fun member => ?_⟩
  cases inv.arranged.apart .list _ node member occupies

theorem DequeueInv.takenOut {thread : Thr} {lock : LockCall} {node : NodePtr}
    (current : s.calls thread = some (.unlinked lock node)) :
    ∃ n, s.queue.nodes node = some n := by
  have occupies : s.Occupies between node (.popping thread) := occupies_popping current rfl
  exact Option.isSome_iff_exists.mp (inv.arranged.live _ _ occupies)

end inv
end DequeueState
end AsyncPing
