import AsyncPing.Metatheory.DequeueInvariant

/-!
Runs of any number of threads on one ConcurrentDequeue. The things a move can do
are listed with what each does to the list; each keeps the invariant, and no
piece of code faults.
-/
namespace AsyncPing
namespace DequeueState
open ConcurrentDequeue
variable {Thr T : Type} [DecidableEq Thr] [Inhabited T]

/-- What a move does, and the nodes and values in the queue after it. -/
inductive Progress (s : DequeueState Thr T) (between : List NodePtr) (values : List T) :
    DequeueMove Thr T → DequeueState Thr T → List NodePtr → List T → Prop
  | make (node : NodePtr) (cell : DequeueNode T) (free : s.queue.nodes node = none) :
      Progress s between values (.make node cell)
        { s with
          queue := (s.queue.log (.made node)).setNode node (some cell)
          callers := node :: s.callers } between values
  | call (thread : Thr) (operation : DequeueOperation T) (idle : s.calls thread = none)
      (fresh : ∀ node ∈ operation.argument, node ∈ s.callers) :
      Progress s between values (.call thread operation)
        { queue := s.queue.log (.called thread (operation.value s.queue))
          calls := Function.update s.calls thread (some operation.start)
          callers := operation.argument.elim s.callers s.callers.erase } between values
  | allocated (thread : Thr) (answer : Answer) (lock : LockCall) (data : T)
      (current : s.calls thread = some (.pushData lock data))
      (free : s.queue.nodes answer.node = none) :
      Progress s between values (.run thread answer)
        (s.advance thread (.pushData lock data) (.continues (.locking lock answer.node))
          { s.queue with
            nodes := Function.update s.queue.nodes answer.node (some ⟨data, none, none⟩)
            trace := .access thread answer.node :: .allocated thread answer.node ::
              s.queue.trace }) between values
  | lockRefused (thread : Thr) (answer : Answer) (lock : LockCall) (node : NodePtr)
      (current : s.calls thread = some (.locking lock node)) (failed : answer.acquired = false) :
      Progress s between values (.run thread answer)
        (s.advance thread (.locking lock node) (.continues (.refused node)) s.queue) between values
  | released (thread : Thr) (answer : Answer) (node : NodePtr)
      (current : s.calls thread = some (.refused node)) :
      Progress s between values (.run thread answer)
        (s.advance thread (.refused node) (.returns false none)
          ((s.queue.log (.deleted thread node)).setNode node none)) between values
  | linked (thread : Thr) (answer : Answer) (lock : LockCall) (call : DequeueCall T)
      (node : NodePtr) (n : DequeueNode T) (q' : ConcurrentDequeue Thr T)
      (current : s.calls thread = some call)
      (tries : call = .locking lock node ∨ call = .pushNode lock node)
      (acquired : answer.acquired = true) (there : s.queue.nodes node = some n)
      (shape : q'.Represents (node :: between) (n.data :: values))
      (edits : s.queue.Edits thread (node :: s.queue.chain between)
        [.linked thread node n.data] q') :
      Progress s between values (.run thread answer)
        (s.advance thread call (.returns true none) q') (node :: between) (n.data :: values)
  | nodeRefused (thread : Thr) (answer : Answer) (lock : LockCall) (node : NodePtr)
      (current : s.calls thread = some (.pushNode lock node)) (failed : answer.acquired = false) :
      Progress s between values (.run thread answer)
        (s.advance thread (.pushNode lock node) (.returns false none) s.queue) between values
  | popRefused (thread : Thr) (answer : Answer) (lock : LockCall)
      (current : s.calls thread = some (.pop lock)) (failed : answer.acquired = false) :
      Progress s between values (.run thread answer)
        (s.advance thread (.pop lock) (.returns false none) s.queue) between values
  | popEmpty (thread : Thr) (answer : Answer) (lock : LockCall)
      (current : s.calls thread = some (.pop lock)) (acquired : answer.acquired = true)
      (noNodes : between = []) (empty : values = []) :
      Progress s between values (.run thread answer)
        (s.advance thread (.pop lock) (.returns false none)
          (s.queue.log (.access thread s.queue.tail))) between values
  | taken (thread : Thr) (answer : Answer) (lock : LockCall) (node : NodePtr) (v : T)
      (q' : ConcurrentDequeue Thr T) (between' : List NodePtr) (values' : List T)
      (current : s.calls thread = some (.pop lock)) (acquired : answer.acquired = true)
      (lastNode : between = between' ++ [node]) (lastValue : values = values' ++ [v])
      (shape : q'.Represents between' values')
      (edits : s.queue.Edits thread (s.queue.chain between) [.unlinked thread node v] q') :
      Progress s between values (.run thread answer)
        (s.advance thread (.pop lock) (.continues (.unlinked lock node)) q') between' values'
  | popReturns (thread : Thr) (answer : Answer) (node : NodePtr) (n : DequeueNode T)
      (current : s.calls thread = some (.unlinked .spinLock node))
      (there : s.queue.nodes node = some n) :
      Progress s between values (.run thread answer)
        (s.advance thread (.unlinked .spinLock node) (.returns true (some n.data))
          (((s.queue.log (.access thread node)).log (.deleted thread node)).setNode node none))
        between values
  | tryPopReturns (thread : Thr) (answer : Answer) (node : NodePtr) (n : DequeueNode T)
      (current : s.calls thread = some (.unlinked .spinTrylock node))
      (there : s.queue.nodes node = some n) :
      Progress s between values (.run thread answer)
        (s.advance thread (.unlinked .spinTrylock node) (.returns true (some n.data))
          (s.queue.log (.access thread node))) between values

section serve
variable {s : DequeueState Thr T} {between : List NodePtr} {values : List T}
  (inv : DequeueInv s between values)
include inv

/-- A push that gets the lock links its node. -/
theorem linked_progress {thread : Thr} {answer : Answer} {lock : LockCall} {node : NodePtr}
    {call : DequeueCall T} (current : s.calls thread = some call)
    (tries : call = .locking lock node ∨ call = .pushNode lock node)
    (acquired : answer.acquired = true) :
    ∃ (n : DequeueNode T) (q' : ConcurrentDequeue Thr T),
      call.run thread answer s.queue = .ok (.returns true none, q') ∧
      Progress s between values (.run thread answer) (s.advance thread call (.returns true none) q')
        (node :: between) (n.data :: values) := by
  have brings : call.brings = some node := by
    cases tries with
    | inl here | inr here => rw [here]; rfl
  obtain ⟨n, there, apart⟩ := inv.brought current brings
  obtain ⟨q', run, shape, edits⟩ := linkHead_represents inv.shape there apart
  refine ⟨n, q', ?_, .linked thread answer lock call node n q' current tries acquired there
    shape edits⟩
  cases tries with
  | inl here | inr here =>
      rw [here]
      simp only [DequeueCall.run, acquired, Bool.not_true, Bool.false_eq_true, if_false,
        Exec.bind_of_ok run]
      rfl

/-- No enabled move faults. -/
theorem serve_progress {l : DequeueMove Thr T} (offered : l.enabled s) :
    ∃ s' between' values', l.serve s = .ok s' ∧
      Progress s between values l s' between' values' := by
  cases l with
  | make node cell => exact ⟨_, _, _, rfl, .make node cell offered⟩
  | call thread operation => exact ⟨_, _, _, rfl, .call thread operation offered.1 offered.2⟩
  | run thread answer =>
      obtain ⟨current, at_current, fresh⟩ := offered
      simp only [DequeueMove.serve, at_current]
      cases current with
      | pushData lock data =>
          have free := fresh lock data rfl
          refine ⟨_, _, _, ?_, .allocated thread answer lock data at_current free⟩
          simp only [DequeueCall.run, newNode_bind, writeNode_bind, Function.update_self,
            Option.elim_some, Exec.pure_apply, setNode, log, Function.update_idem]
          rfl
      | locking lock node =>
          cases acquired : answer.acquired with
          | false =>
              refine ⟨_, _, _, ?_, .lockRefused thread answer lock node at_current acquired⟩
              simp only [DequeueCall.run, acquired, Bool.not_false, if_true]
              rfl
          | true =>
              obtain ⟨n, q', run, progress⟩ := linked_progress inv at_current (.inl rfl) acquired
              refine ⟨_, _, _, ?_, progress⟩
              simp only [run]
              rfl
      | refused node =>
          obtain ⟨n, there, apart⟩ := inv.brought at_current rfl
          refine ⟨_, _, _, ?_, .released thread answer node at_current⟩
          simp only [DequeueCall.run, deleteNode_bind, there, Option.elim_some]
          rfl
      | pushNode lock node =>
          cases acquired : answer.acquired with
          | false =>
              refine ⟨_, _, _, ?_, .nodeRefused thread answer lock node at_current acquired⟩
              simp only [DequeueCall.run, acquired, Bool.not_false, if_true]
              rfl
          | true =>
              obtain ⟨n, q', run, progress⟩ := linked_progress inv at_current (.inr rfl) acquired
              refine ⟨_, _, _, ?_, progress⟩
              simp only [run]
              rfl
      | pop lock =>
          cases acquired : answer.acquired with
          | false =>
              refine ⟨_, _, _, ?_, .popRefused thread answer lock at_current acquired⟩
              simp only [DequeueCall.run, acquired, Bool.not_false, if_true]
              rfl
          | true =>
              cases inv.last_cases with
              | inl both =>
                  obtain ⟨noNodes, empty⟩ := both
                  refine ⟨_, _, _, ?_,
                    .popEmpty thread answer lock at_current acquired noNodes empty⟩
                  have run := unlinkTail_empty thread (noNodes ▸ inv.shape)
                  simp only [DequeueCall.run, acquired, Bool.not_true, Bool.false_eq_true, if_false,
                    Exec.bind_of_ok run]
                  rfl
              | inr both =>
                  obtain ⟨between', node, values', v, last⟩ := both
                  obtain ⟨lastNode, lastValue⟩ := last
                  have shape := inv.shape
                  rw [lastNode, lastValue] at shape
                  obtain ⟨q', run, shape', edits⟩ := unlinkTail_represents shape
                  refine ⟨_, _, _, ?_, .taken thread answer lock node v q' between' values'
                    at_current acquired lastNode lastValue shape' (lastNode ▸ edits)⟩
                  simp only [DequeueCall.run, acquired, Bool.not_true, Bool.false_eq_true, if_false,
                    Exec.bind_of_ok run]
                  rfl
      | unlinked lock node =>
          obtain ⟨n, there⟩ := inv.takenOut at_current
          cases lock with
          | spinLock =>
              refine ⟨_, _, _, ?_, .popReturns thread answer node n at_current there⟩
              simp only [DequeueCall.run, readNode_bind, deleteNode_bind, there, log_nodes,
                Option.elim_some]
              rfl
          | spinTrylock =>
              refine ⟨_, _, _, ?_, .tryPopReturns thread answer node n at_current there⟩
              simp only [DequeueCall.run, readNode_bind, there, Option.elim_some]
              rfl

end serve

/-! ## Every move keeps the invariant -/

section keeps
omit [Inhabited T]
variable {s : DequeueState Thr T} {between : List NodePtr} {values : List T}
  (inv : DequeueInv s between values) {thread : Thr}

theorem returned_stage (result : Bool) (ret : Option T) (tr : List (DequeueEvent Thr T)) :
    stage thread (.returned thread result ret :: tr) = .idle := by
  simp

theorem callStage_advance (call : DequeueCall T) (result : Bool) (ret : Option T)
    (q' : ConcurrentDequeue Thr T) :
    (s.advance thread call (.returns result ret) q').callStage thread = .idle := by
  change (Function.update s.calls thread none thread).elim _ _ = _
  rw [Function.update_self]
  rfl

include inv

theorem DequeueInv.make {node : NodePtr} {cell : DequeueNode T}
    (free : s.queue.nodes node = none) :
    DequeueInv { s with
      queue := (s.queue.log (.made node)).setNode node (some cell)
      callers := node :: s.callers } between values := by
  have nowhere := inv.arranged.nowhere free
  have cells (a : NodePtr) (other : a ≠ node) :
      Function.update s.queue.nodes node (some cell) a = s.queue.nodes a :=
    Function.update_of_ne other ..
  have apart {a : NodePtr} {p : NodePlace Thr} (occupies : s.Occupies between a p) : a ≠ node := by
    intro same
    subst same
    exact nowhere p occupies
  refine ⟨?_, ?_, ?_, ⟨fun _ _ _ uses => uses.elim, inv.exclusive⟩⟩
  · refine inv.shape.congr rfl rfl ?_
    exact fun a member => cells a (apart (p := .list) member)
  · apply inv.arranged.move node (some .callers)
    · intro a p occupies
      cases p with
      | list =>
          rw [if_neg (apart (p := .list) occupies)]
          exact occupies
      | callers =>
          by_cases same : a = node
          · rw [if_pos same]
          · rw [if_neg same]
            exact (List.mem_cons.mp occupies).resolve_left same
      | pushing thread =>
          rw [if_neg (apart (p := .pushing thread) occupies)]
          exact occupies
      | popping thread =>
          rw [if_neg (apart (p := .popping thread) occupies)]
          exact occupies
    · intro a other live
      exact (congrArg Option.isSome (cells a other)).trans live
    · intro _
      have here : Function.update s.queue.nodes node (some cell) node = some cell :=
        Function.update_self ..
      exact congrArg Option.isSome here
    · exact List.nodup_cons.mpr ⟨nowhere .callers, inv.arranged.callers⟩
    · intro a other
      exact if_neg other.symm
    · intro o p out
      rw [setNode_trace, log_trace, takenOutBy, if_pos rfl] at out
      cases out
  · refine ⟨?_, ?_, trivial, inv.accounted.linearized⟩
    · simpa [List.filterMap_cons] using inv.accounted.order
    · intro thread
      refine (inv.accounted.stages thread).trans (Eq.symm ?_)
      refine callStage_other rfl ?_
      intro call a running held
      obtain ⟨p, occupies, -⟩ := occupies_held running held
      exact congrArg (Option.map _) (cells a (apart occupies))

theorem DequeueInv.call {operation : DequeueOperation T} (idle : s.calls thread = none)
    (fresh : ∀ node ∈ operation.argument, node ∈ s.callers) :
    DequeueInv {
      queue := s.queue.log (.called thread (operation.value s.queue))
      calls := Function.update s.calls thread (some operation.start)
      callers := operation.argument.elim s.callers s.callers.erase } between values := by
  have takes : operation.start.takes = none := by cases operation <;> rfl
  have brings : operation.start.brings = operation.argument := by cases operation <;> rfl
  refine ⟨inv.shape.congr rfl rfl fun _ _ => rfl, ?_, ?_, fun _ _ _ uses => uses.elim,
    inv.exclusive⟩
  · cases argument : operation.argument with
    | none =>
        refine inv.arranged.keep (places_keep rfl ?_ ?_ ?_ ?_) (fun _ => id) inv.arranged.callers
          fun _ => rfl
        · exact fun _ => id
        · exact fun _ => id
        · intro a held
          rw [Option.bind_some, brings, argument] at held
          cases held
        · intro a held
          rw [Option.bind_some, takes] at held
          cases held
    | some node =>
        have offered : s.Occupies between node .callers := fresh node argument
        refine inv.arranged.aside node (some (.pushing thread)) rfl ?_ rfl rfl (fun _ _ => rfl) ?_
          ?_ ?_ ?_ ?_ (fun _ _ => rfl) ?_
        · exact fun p here => .inl (inv.arranged.apart _ _ _ here offered)
        · exact fun _ => inv.arranged.live _ _ offered
        · intro a member
          obtain ⟨other, before⟩ := (inv.arranged.callers.mem_erase_iff).mp member
          rw [if_neg other]
          exact before
        · exact inv.arranged.callers.erase node
        · intro a held
          rw [Option.bind_some, brings, argument] at held
          exact ⟨(Option.some.inj held).symm, rfl⟩
        · intro a held
          rw [Option.bind_some, takes] at held
          cases held
        · intro o p out _
          cases inv.arranged.owners node o _ out offered
  · refine inv.accounted.extend thread [] [.called thread (operation.value s.queue)] [] rfl ?_ ?_
      (fun _ _ _ _ _ _ => rfl) ?_ (List.append_nil values).symm ?_
    · intro e member
      cases member
    · exact fun other apart => Function.update_of_ne apart ..
    · intro other apart
      simp [Ne.symm apart]
    · intro tr before
      rw [callStage, idle] at before
      refine ⟨?_, fun linearized => ⟨before, linearized⟩⟩
      rw [callStage_of_call (Function.update_self ..)]
      cases operation <;> simp <;> rfl

theorem DequeueInv.linked {call : DequeueCall T} {node : NodePtr} {n : DequeueNode T}
    {q' : ConcurrentDequeue Thr T} (current : s.calls thread = some call)
    (brings : call.brings = some node) (there : s.queue.nodes node = some n)
    (shape : q'.Represents (node :: between) (n.data :: values))
    (edits : s.queue.Edits thread (node :: s.queue.chain between) [.linked thread node n.data] q') :
    DequeueInv (s.advance thread call (.returns true none) q') (node :: between)
      (n.data :: values) := by
  obtain ⟨acc, trace, accesses⟩ := edits.trace
  have occupies : s.Occupies between node (.pushing thread) := occupies_pushing current brings
  have callers : (s.advance thread call (.returns true none) q').callers = s.callers := by
    cases call <;> rfl
  have history : (s.advance thread call (.returns true none) q').queue.trace =
      [.returned thread true none, .linked thread node n.data] ++ (acc ++ s.queue.trace) :=
    congrArg _ trace
  have calls : (s.advance thread call (.returns true none) q').calls =
      Function.update s.calls thread none := rfl
  have chain : (s.advance thread call (.returns true none) q').queue.chain (node :: between) =
      s.queue.head :: node :: (between ++ [s.queue.tail]) := by
    change q'.head :: node :: (between ++ [q'.tail]) = _
    rw [edits.head, edits.tail]
  have taken (a : NodePtr) :
      takenOutBy a (s.advance thread call (.returns true none) q').queue.trace =
        takenOutBy a s.queue.trace := by
    rw [history]
    exact takenOutBy_accesses accesses a
  have notTaken (o : Thr) : takenOutBy node s.queue.trace ≠ some o := by
    intro out
    cases inv.arranged.owners node o _ out occupies
  refine ⟨⟨shape.links, shape.first, shape.last, shape.distinct, shape.live, shape.values⟩,
    ?_, ?_, ?_⟩
  · apply inv.arranged.move node (some .list)
    · apply places_move calls
      · exact fun p here => .inr (.inr (.inl (inv.arranged.apart _ _ _ here occupies)))
      · intro a member
        rw [chain] at member
        by_cases same : a = node
        · rw [if_pos same]
        · rw [if_neg same]
          simp only [List.mem_cons, same, false_or] at member
          exact List.mem_cons.mpr member
      · intro a member
        rw [callers] at member
        have apart : a ≠ node := by
          intro same
          subst same
          cases inv.arranged.apart .callers _ a member occupies
        rw [if_neg apart]
        exact member
      · intro a held
        cases held
      · intro a held
        cases held
    · exact fun a _ live => (edits.live a).trans live
    · exact fun _ => (edits.live node).trans (inv.arranged.live _ _ occupies)
    · rw [callers]
      exact inv.arranged.callers
    · exact fun a _ => taken a
    · intro o p out
      exact absurd ((taken node).symm.trans out) (notTaken o)
  · apply inv.accounted.extend thread _ _ _ history accesses
    · exact fun other apart => Function.update_of_ne apart ..
    · exact fun _ _ a _ _ _ => edits.data a
    · intro other apart
      simp [Ne.symm apart]
    · simp [List.filterMap_cons]
    · intro tr before
      have stage : s.callStage thread = .called (some n.data) := by
        rw [callStage_of_call current]
        cases call <;> simp_all [ConcurrentDequeue.data]
      rw [stage] at before
      refine ⟨?_, fun linearized => ⟨?_, before, linearized⟩⟩
      · rw [callStage, calls, Function.update_self]
        simp
      · simp
  · rw [history]
    refine ⟨fun _ _ _ uses => uses.elim, fun _ _ _ uses => uses.elim, ?_⟩
    apply exclusive_accesses accesses inv.exclusive
    intro a region owner out
    cases List.mem_cons.mp region with
    | inl same =>
        subst same
        exact absurd out (notTaken owner)
    | inr member => exact inv.arranged.mine (p := .list) member (.inl rfl) owner out

theorem DequeueInv.allocated {answer : Answer} {lock : LockCall} {data : T}
    (current : s.calls thread = some (.pushData lock data))
    (free : s.queue.nodes answer.node = none) :
    DequeueInv (s.advance thread (.pushData lock data) (.continues (.locking lock answer.node))
      { s.queue with
        nodes := Function.update s.queue.nodes answer.node (some ⟨data, none, none⟩)
        trace := .access thread answer.node :: .allocated thread answer.node ::
          s.queue.trace }) between values := by
  have nowhere := inv.arranged.nowhere free
  have cells (a : NodePtr) (other : a ≠ answer.node) :
      Function.update s.queue.nodes answer.node (some ⟨data, none, none⟩) a = s.queue.nodes a :=
    Function.update_of_ne other ..
  have apart {a : NodePtr} {p : NodePlace Thr} (occupies : s.Occupies between a p) :
      a ≠ answer.node := by
    intro same
    subst same
    exact nowhere p occupies
  have fresh : takenOutBy answer.node (.allocated thread answer.node :: s.queue.trace) = none :=
    if_pos rfl
  refine ⟨?_, ?_, ?_, ?_, fun _ _ _ uses => uses.elim, inv.exclusive⟩
  · refine inv.shape.congr rfl rfl ?_
    exact fun a member => cells a (apart (p := .list) member)
  · refine inv.arranged.aside answer.node (some (.pushing thread)) rfl ?_ rfl rfl cells ?_ ?_
      inv.arranged.callers ?_ ?_ ?_ ?_
    · exact fun p occupies => absurd occupies (nowhere p)
    · intro _
      have here : Function.update s.queue.nodes answer.node (some ⟨data, none, none⟩)
          answer.node = some ⟨data, none, none⟩ := Function.update_self ..
      exact congrArg Option.isSome here
    · intro a member
      rw [if_neg (apart (p := .callers) member)]
      exact member
    · intro a held
      cases held
      exact ⟨rfl, rfl⟩
    · intro a held
      cases held
    · exact fun a other => if_neg other.symm
    · intro o p out
      cases fresh.symm.trans out
  · refine inv.accounted.extend thread [] [.access thread answer.node,
      .allocated thread answer.node] [] rfl ?_ ?_ ?_ ?_ (List.append_nil values).symm ?_
    · intro e member
      cases member
    · exact fun other apart => Function.update_of_ne apart ..
    · intro other call a _ running held
      obtain ⟨p, occupies, -⟩ := occupies_held running held
      exact congrArg (Option.map _) (cells a (apart occupies))
    · intro other apart
      simp
    · intro tr before
      refine ⟨?_, fun linearized => ⟨trivial, trivial, linearized⟩⟩
      refine before.trans ?_
      rw [callStage_of_call current, callStage_of_call (Function.update_self ..)]
      have value : Function.update s.queue.nodes answer.node (some ⟨data, none, none⟩)
          answer.node = some ⟨data, none, none⟩ := Function.update_self ..
      exact congrArg CallStage.called (congrArg (Option.map DequeueNode.data) value).symm
  · rintro t node owner ⟨-, rfl⟩ out
    cases fresh.symm.trans out

theorem DequeueInv.lockRefused {lock : LockCall} {node : NodePtr}
    (current : s.calls thread = some (.locking lock node)) :
    DequeueInv (s.advance thread (.locking lock node) (.continues (.refused node)) s.queue)
      between values := by
  refine ⟨inv.shape, ?_, ?_, inv.exclusive⟩
  · refine inv.arranged.keep (places_keep rfl (fun _ => id) (fun _ => id) ?_ ?_) (fun _ => id)
      inv.arranged.callers fun _ => rfl
    · intro a held
      rw [current]
      exact held
    · intro a held
      cases held
  · refine inv.accounted.extend thread [] [] [] rfl ?_ ?_ (fun _ _ _ _ _ _ => rfl) ?_
      (List.append_nil values).symm ?_
    · intro e member
      cases member
    · exact fun other apart => Function.update_of_ne apart ..
    · intro other apart e member
      cases member
    · intro tr before
      refine ⟨before.trans ?_, id⟩
      rw [callStage_of_call current, callStage_of_call (Function.update_self ..)]
      rfl

/-- A pop that leaves without a value. -/
theorem DequeueInv.popFails {lock : LockCall} {q' : ConcurrentDequeue Thr T}
    (acc : List (DequeueEvent Thr T)) (current : s.calls thread = some (.pop lock))
    (same : q' = { s.queue with trace := acc ++ s.queue.trace })
    (accesses : ∀ e ∈ acc, ∃ a ∈ s.queue.chain between, e = .access thread a) :
    DequeueInv (s.advance thread (.pop lock) (.returns false none) q') between values := by
  subst same
  refine ⟨inv.shape.congr rfl rfl fun _ _ => rfl, ?_, ?_, fun _ _ _ uses => uses.elim, ?_⟩
  · refine inv.arranged.keep (places_keep rfl (fun _ => id) (fun _ => id) ?_ ?_) (fun _ => id)
      inv.arranged.callers fun a => takenOutBy_accesses accesses a
    · intro a held
      cases held
    · intro a held
      cases held
  · refine inv.accounted.extend thread _ [.returned thread false none] acc rfl accesses ?_
      (fun _ _ _ _ _ _ => rfl) ?_ (List.append_nil values).symm ?_
    · exact fun other apart => Function.update_of_ne apart ..
    · intro other apart
      simp [Ne.symm apart]
    · intro tr before
      rw [callStage_of_call current] at before
      exact ⟨(returned_stage ..).trans (callStage_advance ..).symm,
        fun linearized => ⟨⟨rfl, _, before⟩, linearized⟩⟩
  · apply exclusive_accesses accesses inv.exclusive
    exact fun a member owner => inv.arranged.mine (p := .list) member (.inl rfl) owner

/-- A call ends and lets go of the node it held beside the list. -/
theorem DequeueInv.ends {call : DequeueCall T} {node : NodePtr} {held : NodePlace Thr}
    {result : Bool} {ret : Option T} {q' : ConcurrentDequeue Thr T}
    (own acc : List (DequeueEvent Thr T)) (occupies : s.Occupies between node held)
    (reach : held = .pushing thread ∨ held = .popping thread)
    (head : q'.head = s.queue.head) (tail : q'.tail = s.queue.tail)
    (cells : ∀ a, a ≠ node → q'.nodes a = s.queue.nodes a)
    (callers : (s.advance thread call (.returns result ret) q').callers = s.callers)
    (trace : q'.trace = own ++ (acc ++ s.queue.trace))
    (accesses : ∀ e ∈ acc, ∃ a ∈ [node], e = .access thread a)
    (releases : own = [] ∨ own = [.deleted thread node])
    (follows : (DequeueEvent.returned thread result ret).Follows s.callStage) :
    DequeueInv (s.advance thread call (.returns result ret) q') between values := by
  have calls : (s.advance thread call (.returns result ret) q').calls =
      Function.update s.calls thread none := rfl
  have history : (s.advance thread call (.returns result ret) q').queue.trace =
      (.returned thread result ret :: own) ++ (acc ++ s.queue.trace) := congrArg _ trace
  have away {a : NodePtr} {p : NodePlace Thr} (there : s.Occupies between a p)
      (other : p = .list ∨ p = .callers) : a ≠ node := by
    intro same
    subst same
    have same := inv.arranged.apart _ _ _ there occupies
    rcases reach with rfl | rfl <;> rcases other with rfl | rfl <;> cases same
  have mine (owner : Thr) (out : takenOutBy node s.queue.trace = some owner) : thread = owner :=
    inv.arranged.mine occupies (.inr reach) owner out
  have released (a : NodePtr) : takenOutBy a (own ++ (acc ++ s.queue.trace)) =
      takenOutBy a s.queue.trace := by
    cases releases with
    | inl same =>
        subst same
        exact takenOutBy_accesses accesses a
    | inr same =>
        subst same
        exact takenOutBy_accesses accesses a
  refine ⟨?_, ?_, ?_, ?_⟩
  · refine inv.shape.congr head tail ?_
    exact fun a member => cells a (away (p := .list) member (.inl rfl))
  · refine inv.arranged.aside node none calls ?_ head tail cells ?_ ?_ ?_ ?_ ?_ ?_ ?_
    · intro p here
      rw [inv.arranged.apart _ _ _ here occupies]
      exact .inr reach
    · intro there
      cases there
    · intro a member
      rw [callers] at member
      rw [if_neg (away (p := .callers) member (.inr rfl))]
      exact member
    · rw [callers]
      exact inv.arranged.callers
    · intro a kept
      cases kept
    · intro a kept
      cases kept
    · intro a _
      rw [history]
      exact released a
    · intro o p _ there
      cases there
  · refine inv.accounted.extend thread _ (.returned thread result ret :: own) acc history accesses
      ?_ ?_ ?_ ?_ ?_
    · exact fun other apart => Function.update_of_ne apart ..
    · intro other running a apart here keeps
      refine congrArg (Option.map _) (cells a ?_)
      intro same
      subst same
      obtain ⟨p, there, place⟩ := occupies_held here keeps
      have same := inv.arranged.apart _ _ _ there occupies
      rcases reach with rfl | rfl <;> rcases place with rfl | rfl <;> cases same <;>
        exact apart rfl
    · intro other apart
      rcases releases with rfl | rfl <;> simp [Ne.symm apart]
    · rcases releases with rfl | rfl <;> simp [List.filterMap_cons]
    · intro tr before
      have unmoved : stage thread (own ++ tr) = s.callStage thread := by
        cases releases with
        | inl same =>
            subst same
            exact before
        | inr same =>
            subst same
            exact before
      refine ⟨(returned_stage ..).trans (callStage_advance ..).symm, fun linearized => ⟨?_, ?_⟩⟩
      · cases result with
        | true => exact unmoved.trans follows
        | false => exact ⟨follows.1, follows.2.imp fun _ => unmoved.trans⟩
      · cases releases with
        | inl same =>
            subst same
            exact linearized
        | inr same =>
            subst same
            exact ⟨trivial, linearized⟩
  · rw [history]
    have before : Exclusive (acc ++ s.queue.trace) := by
      apply exclusive_accesses accesses inv.exclusive
      intro a member owner out
      rw [List.mem_singleton.mp member] at out
      exact mine owner out
    refine ⟨fun _ _ _ uses => uses.elim, ?_⟩
    cases releases with
    | inl same =>
        subst same
        exact before
    | inr same =>
        subst same
        refine ⟨?_, before⟩
        rintro t a owner ⟨rfl, rfl⟩ out
        exact mine owner ((takenOutBy_accesses accesses _).symm.trans out)

/-- A caller keeps the node that the lock was refused for. -/
theorem DequeueInv.nodeRefused {lock : LockCall} {node : NodePtr}
    (current : s.calls thread = some (.pushNode lock node)) :
    DequeueInv (s.advance thread (.pushNode lock node) (.returns false none) s.queue)
      between values := by
  have occupies : s.Occupies between node (.pushing thread) := occupies_pushing current rfl
  have fresh : node ∉ s.callers := by
    intro member
    cases inv.arranged.apart .callers _ node member occupies
  refine ⟨inv.shape.congr rfl rfl fun _ _ => rfl, ?_, ?_, fun _ _ _ uses => uses.elim,
    inv.exclusive⟩
  · refine inv.arranged.aside node (some .callers) rfl ?_ rfl rfl (fun _ _ => rfl) ?_ ?_ ?_ ?_ ?_
      (fun _ _ => rfl) ?_
    · exact fun p here => .inr (.inl (inv.arranged.apart _ _ _ here occupies))
    · exact fun _ => inv.arranged.live _ _ occupies
    · intro a member
      by_cases same : a = node
      · rw [if_pos same]
      · rw [if_neg same]
        exact (List.mem_cons.mp member).resolve_left same
    · exact List.nodup_cons.mpr ⟨fresh, inv.arranged.callers⟩
    · intro a kept
      cases kept
    · intro a kept
      cases kept
    · intro o p out
      cases inv.arranged.owners node o _ out occupies
  · refine inv.accounted.extend thread [] [.returned thread false none] [] rfl ?_ ?_
      (fun _ _ _ _ _ _ => rfl) ?_ (List.append_nil values).symm ?_
    · intro e member
      cases member
    · exact fun other apart => Function.update_of_ne apart ..
    · intro other apart
      simp [Ne.symm apart]
    · intro tr before
      rw [callStage_of_call current] at before
      exact ⟨(returned_stage ..).trans (callStage_advance ..).symm,
        fun linearized => ⟨⟨rfl, _, before⟩, linearized⟩⟩

theorem DequeueInv.taken {lock : LockCall} {node : NodePtr} {v : T} {q' : ConcurrentDequeue Thr T}
    {between' : List NodePtr} {values' : List T} (current : s.calls thread = some (.pop lock))
    (lastNode : between = between' ++ [node]) (lastValue : values = values' ++ [v])
    (shape : q'.Represents between' values')
    (edits : s.queue.Edits thread (s.queue.chain between) [.unlinked thread node v] q') :
    DequeueInv (s.advance thread (.pop lock) (.continues (.unlinked lock node)) q')
      between' values' := by
  obtain ⟨acc, trace, accesses⟩ := edits.trace
  have member : node ∈ s.queue.chain between := by
    rw [lastNode, ConcurrentDequeue.chain]
    simp
  have occupies : s.Occupies between node .list := member
  have chain : q'.chain between' = s.queue.head :: (between' ++ [s.queue.tail]) := by
    rw [ConcurrentDequeue.chain, edits.head, edits.tail]
  have value : s.queue.data node = some v := by
    have carried := inv.shape.values
    rw [lastNode, lastValue, List.map_append, List.map_append] at carried
    exact List.head_eq_of_cons_eq (List.append_inj_right' carried rfl)
  have calls : (s.advance thread (.pop lock) (.continues (.unlinked lock node)) q').calls =
      Function.update s.calls thread (some (.unlinked lock node)) := rfl
  have gone : node ∉ q'.chain between' := by
    have distinct := inv.shape.distinct
    rw [lastNode, ConcurrentDequeue.chain, List.append_assoc] at distinct
    rw [chain]
    intro inside
    simp only [List.nodup_cons, List.nodup_append, List.mem_append, List.mem_cons,
      List.cons_append, List.nil_append, List.not_mem_nil, or_false] at distinct inside
    grind
  refine ⟨shape, ?_, ?_, ?_⟩
  · apply inv.arranged.move node (some (.popping thread))
    · apply places_move calls
      · exact fun p here => .inl (inv.arranged.apart _ _ _ here occupies)
      · intro a inside
        have apart : a ≠ node := by
          intro same
          subst same
          exact gone inside
        rw [if_neg apart, lastNode]
        change a ∈ q'.chain between' at inside
        rw [chain] at inside
        simp only [ConcurrentDequeue.chain, List.mem_cons, List.mem_append] at inside ⊢
        grind
      · intro a brought
        have apart : a ≠ node := by
          intro same
          subst same
          cases inv.arranged.apart .callers _ a brought occupies
        rw [if_neg apart]
        exact brought
      · intro a held
        cases held
      · intro a held
        cases held
        exact ⟨rfl, rfl⟩
    · exact fun a _ live => (edits.live a).trans live
    · exact fun _ => (edits.live node).trans (inv.arranged.live _ _ occupies)
    · exact inv.arranged.callers
    · intro a other
      change takenOutBy a q'.trace = _
      rw [trace]
      exact (if_neg other.symm).trans (takenOutBy_accesses accesses a)
    · intro o p out place
      change takenOutBy node q'.trace = some o at out
      rw [trace, List.singleton_append, takenOutBy, if_pos rfl] at out
      cases out
      exact (Option.some.inj place).symm
  · refine inv.accounted.extend thread _ [.unlinked thread node v] acc trace accesses ?_ ?_ ?_ ?_ ?_
    · exact fun other apart => Function.update_of_ne apart ..
    · exact fun _ _ a _ _ _ => edits.data a
    · intro other apart
      simp [Ne.symm apart]
    · simp [List.filterMap_cons, lastValue]
    · intro tr before
      rw [callStage_of_call current] at before
      refine ⟨?_, fun linearized => ⟨before, linearized⟩⟩
      have after : q'.data node = some v := (edits.data node).trans value
      rw [callStage_of_call (Function.update_self ..)]
      refine Eq.trans ?_ (congrArg CallStage.done after).symm
      simp
  · change Exclusive q'.trace
    rw [trace]
    refine ⟨fun _ _ _ uses => uses.elim, ?_⟩
    apply exclusive_accesses accesses inv.exclusive
    exact fun a inside owner => inv.arranged.mine (p := .list) inside (.inl rfl) owner

end keeps

/-! ## Runs -/

omit [Inhabited T] in
theorem Progress.keeps {s s' : DequeueState Thr T} {between between' : List NodePtr}
    {values values' : List T} {l : DequeueMove Thr T} (inv : DequeueInv s between values)
    (progress : Progress s between values l s' between' values') :
    DequeueInv s' between' values' := by
  cases progress with
  | make node cell free => exact inv.make free
  | call thread operation idle fresh => exact inv.call idle fresh
  | allocated thread answer lock data current free => exact inv.allocated current free
  | lockRefused thread answer lock node current failed => exact inv.lockRefused current
  | released thread answer node current =>
      refine inv.ends [.deleted thread node] [] (occupies_pushing current rfl) (.inl rfl) rfl rfl ?_
        rfl rfl ?_ (.inr rfl) ⟨rfl, _, callStage_of_call current⟩
      · exact fun a other => Function.update_of_ne other ..
      · intro e member
        cases member
  | linked thread answer lock call node n q' current tries acquired there shape edits =>
      have brings : call.brings = some node := by
        rcases tries with rfl | rfl <;> rfl
      exact inv.linked current brings there shape edits
  | nodeRefused thread answer lock node current failed => exact inv.nodeRefused current
  | popRefused thread answer lock current failed =>
      refine inv.popFails [] current rfl ?_
      intro e member
      cases member
  | popEmpty thread answer lock current acquired noNodes empty =>
      refine inv.popFails [.access thread s.queue.tail] current rfl ?_
      intro e member
      rw [List.mem_singleton.mp member]
      exact ⟨s.queue.tail, .tail _ (List.mem_append_right between (.head _)), rfl⟩
  | taken thread answer lock node v q' between' values' current acquired lastNode lastValue shape
      edits => exact inv.taken current lastNode lastValue shape edits
  | popReturns thread answer node n current there =>
      refine inv.ends [.deleted thread node] [.access thread node] (occupies_popping current rfl)
        (.inr rfl) rfl rfl ?_ rfl rfl ?_ (.inr rfl)
        ((callStage_of_call current).trans (congrArg _ (congrArg (Option.map _) there)))
      · exact fun a other => Function.update_of_ne other ..
      · exact fun e member => ⟨node, .head _, List.mem_singleton.mp member⟩
  | tryPopReturns thread answer node n current there =>
      refine inv.ends [] [.access thread node] (occupies_popping current rfl) (.inr rfl) rfl rfl
        (fun _ _ => rfl) rfl rfl ?_ (.inl rfl)
        ((callStage_of_call current).trans (congrArg _ (congrArg (Option.map _) there)))
      exact fun e member => ⟨node, .head _, List.mem_singleton.mp member⟩

theorem start_invariant {s : DequeueState Thr T} (started : s.Constructed) :
    DequeueInv s [] [] := by
  obtain ⟨⟨me, head, tail, apart, run⟩, idle, noCallers⟩ := started
  have shape := construct_represents apart run
  rw [construct_eq _ me apart] at run
  have outcome : _ = s.queue := congrArg Prod.snd (Except.ok.inj run)
  have trace := congrArg ConcurrentDequeue.trace outcome
  have places (a : NodePtr) (p : NodePlace Thr) (occupies : s.Occupies [] a p) : p = .list := by
    cases p with
    | list => rfl
    | callers =>
        rw [Occupies, noCallers] at occupies
        cases occupies
    | pushing thread =>
        rw [Occupies, idle] at occupies
        cases occupies
    | popping thread =>
        rw [Occupies, idle] at occupies
        cases occupies
  refine ⟨shape, ⟨?_, ?_, ?_, ?_⟩, ⟨?_, ?_, ?_⟩, ?_⟩
  · intro p a occupies
    rw [places a p occupies] at occupies
    exact shape.live a occupies
  · intro p p' a occupies occupies'
    rw [places a p occupies, places a p' occupies']
  · rw [noCallers]
    exact List.nodup_nil
  · intro a owner p out
    rw [← trace] at out
    simp only [takenOutBy] at out
    split at out <;> [skip; split at out] <;> cases out
  · rw [← trace]
    rfl
  · intro thread
    rw [← trace, callStage, idle]
    rfl
  · rw [← trace]
    simp [Linearized]
  · rw [← trace]
    simp [Exclusive, takenOutBy, DequeueEvent.Uses]

/-- In every reachable state the invariant holds, for some nodes and values. -/
theorem dequeue_invariant {allowed : DequeueState Thr T → DequeueMove Thr T → Prop}
    {s : DequeueState Thr T} (h : (dequeueSystem Thr T).Reachable allowed s) :
    ∃ between values, DequeueInv s between values := by
  refine h.invariant (I := fun r => ∃ between values, DequeueInv r between values)
    (fun s₀ started => ⟨[], [], start_invariant started⟩) ?_
  rintro r l r' ⟨between, values, inv⟩ offered - served
  obtain ⟨s', between', values', served', progress⟩ := serve_progress inv offered
  have same : s' = r' := Except.ok.inj (served'.symm.trans served)
  exact ⟨between', values', same ▸ progress.keeps inv⟩

end DequeueState
end AsyncPing
