import AsyncPing.Metatheory.ServerInvariant

/-!
Each move of the server as one change of the state, and the invariant across it.
A worker's move changes what that worker holds; the HTTP thread creates a Task
that nobody has and deletes one that is only in the response queue.
-/
namespace AsyncPing

section worker
variable {W : Nat} {s : Server W} {i j : Fin W} {w : World}

@[simp] theorem Server.focus_resume_self : (s.resume i w).focus i = w := by
  simp only [Server.focus, Server.resume, Function.update_self]

theorem Server.focus_resume_of_ne (other : j ≠ i) :
    (s.resume i w).focus j = { s.focus j with heap := w.heap, master := w.master } := by
  simp only [Server.focus, Server.resume, Function.update_of_ne other]

theorem Server.places_resume (a : TaskPtr) :
    (s.resume i w).places a + (s.focus i).holdings a = s.places a + w.holdings a := by
  have others : ∀ j, j ≠ i → (s.resume i w).held a j = s.held a j := by
    intro j other
    simp only [Server.held, Server.resume, Function.update_of_ne other]
  have mine : (s.resume i w).held a i + w.master.responseQueue.count a = w.holdings a := by
    simp only [Server.held, Server.resume, Function.update_self]
    rfl
  have change := Sequence.sum_change others
  have before := s.holdings_focus i a
  simp only [Server.places]
  change ∑ j, (s.resume i w).held a j + w.master.responseQueue.count a + _ = _
  omega

/-- What is handed back can be answered. -/
theorem World.Returned.answerable {running : Option TaskPtr} {a : TaskPtr}
    (returned : w.Returned a) (inv : WorkerInv running w) :
    ∃ t, w.heap a = some t ∧ t.Answerable := by
  obtain ⟨t, timers, rest, live, log⟩ := returned.frozen
  have life := inv.task a
  rw [log] at life
  refine ⟨t, live, ?_⟩
  cases life with
  | refused t₀ timers gone unstarted fresh => exact .inl rfl
  | returned t timers gone serving => exact .inr serving.total

/-- A move of worker `i` keeps the invariant of the server. -/
theorem ServerInv.resume (inv : ServerInv s) (advances : (s.focus i).Advances w) :
    ServerInv (s.resume i w) where
  worker j := by
    by_cases same : j = i
    · subst same
      rw [Server.focus_resume_self]
      exact advances.inv
    · rw [Server.focus_resume_of_ne same]
      refine (inv.worker j).heap_congr fun a holds => ?_
      exact advances.acts.heap a (inv.apart (Ne.symm same) holds)
  places a := by
    have moved := s.places_resume (w := w) (i := i) a
    have custody := advances.acts.custody a
    have live := advances.acts.live a
    have before := inv.places a
    change _ = (w.heap a).isSome.toNat
    rw [live]
    change _ = (s.heap a).isSome.toNat
    omega
  ledger := inv.ledger.of_live advances.acts.live rfl rfl
  pipe := by
    have balance := advances.acts.pipe
    have before := inv.pipe
    change w.master.notifyPipe + s.master.responseQueue.length =
      s.master.notifyPipe + w.master.responseQueue.length at balance
    change w.master.notifyPipe = w.master.responseQueue.length
    omega
  answerable a member := by
    cases advances.acts.responses a member with
    | inl earlier =>
        obtain ⟨t, live, answerable⟩ := inv.answerable a earlier
        have free := (inv.of_response earlier).2 i
        exact ⟨t, (advances.acts.heap a free).trans live, answerable⟩
    | inr returned => exact returned.answerable advances.inv
  index := inv.index

end worker

/-! ## Requests and answers -/

namespace Server
variable {W : Nat}

/-- The request is entered and its Task is in the heap. -/
def receive (s : Server W) (req : RequestPtr) (task : TaskPtr) (t : Task) : Server W :=
  { s with
    heap := Function.update s.heap task (some t)
    doingRequest := Function.update s.doingRequest task (some req)
    history := .received req task :: s.history }

/-- The Task of a bad request goes to the response queue at once. -/
def reject (s : Server W) (req : RequestPtr) (task : TaskPtr) (t : Task) : Server W :=
  { s.receive req task t with master := s.master.enqueueResponse task }

/-- The Task goes to worker `i`, and the next one to its successor. -/
def passOn (s : Server W) (req : RequestPtr) (task : TaskPtr) (t : Task) (i : Fin W) : Server W :=
  { HttpServer.enqueueAt i task t (s.receive req task t) with
    randedIndex := some (((i : Nat) + 1 : Int).tmod W) }

/-- The oldest response is sent and its Task deleted. -/
def answer (s : Server W) (req : RequestPtr) (task : TaskPtr) (rest : List TaskPtr)
    (reply : Reply) : Server W :=
  { s with
    heap := Function.update s.heap task none
    doingRequest := Function.update s.doingRequest task none
    master := { responseQueue := rest, notifyPipe := s.master.notifyPipe - 1 }
    history := .deleted task :: .replied req task reply :: s.history }

end Server

section master
variable {W : Nat} {s : Server W} {req : RequestPtr} {task : TaskPtr} {t : Task}

theorem ServerInv.holds_other (inv : ServerInv s) (free : s.heap task = none) {i : Fin W}
    {a : TaskPtr} (holds : (s.focus i).Holds a) : a ≠ task := by
  intro same
  subst same
  have live := inv.live_of_holds holds
  rw [free] at live
  cases live

theorem ServerInv.response_other (inv : ServerInv s) (free : s.heap task = none) {a : TaskPtr}
    (member : a ∈ s.master.responseQueue) : a ≠ task := by
  intro same
  obtain ⟨t, live, _⟩ := inv.answerable a member
  rw [same, free] at live
  cases live

/-- A response stays answerable when another address changes. -/
theorem ServerInv.still_answerable (inv : ServerInv s) {a : TaskPtr}
    (member : a ∈ s.master.responseQueue) (other : a ≠ task) (contents : Option Task) :
    ∃ t, Function.update s.heap task contents a = some t ∧ t.Answerable := by
  rw [Function.update_of_ne other]
  exact inv.answerable a member

/-- An address that is not live is nowhere. -/
theorem ServerInv.nowhere (inv : ServerInv s) (free : s.heap task = none) :
    s.places task = 0 := by
  rw [inv.places task, free]
  rfl

theorem ServerInv.reject (inv : ServerInv s) (free : s.heap task = none)
    (fresh : outstanding req s.history = none) (bad : t.prepareError = true) :
    ServerInv (s.reject req task t) where
  worker i := (inv.worker i).heap_congr fun a holds =>
    Function.update_of_ne (inv.holds_other free holds) ..
  places a := by
    have before := inv.places a
    change ∑ i, s.held a i + (task :: s.master.responseQueue).count a =
      (Function.update s.heap task (some t) a).isSome.toNat
    by_cases same : a = task
    · subst same
      have none := inv.nowhere free
      rw [Function.update_self, List.count_cons_self]
      simp only [Server.places, Option.isSome_some, Bool.toNat_true] at none ⊢
      omega
    · rw [Function.update_of_ne same, List.count_cons_of_ne (Ne.symm same)]
      exact before
  ledger := inv.ledger.receive free fresh rfl rfl rfl
  pipe := congrArg (· + 1) inv.pipe
  answerable a member := by
    cases List.mem_cons.mp member with
    | inl same =>
        subst same
        exact ⟨t, Function.update_self .., .inl bad⟩
    | inr earlier => exact inv.still_answerable earlier (inv.response_other free earlier) (some t)
  index := inv.index

theorem ServerInv.passOn (inv : ServerInv s) (i : Fin W) (free : s.heap task = none)
    (fresh : outstanding req s.history = none) (ready : t.Fresh task) :
    ServerInv (s.passOn req task t i) where
  worker j := by
    by_cases same : j = i
    · subst same
      have submitted := (inv.worker j).submit free ready
      have focus : (s.passOn req task t j).focus j = (s.focus j).submit task t := by
        simp only [Server.focus, Server.passOn, HttpServer.enqueueAt, Server.receive,
          World.submit, Function.update_self]
      exact focus ▸ submitted
    · have focus : (s.passOn req task t i).focus j =
          { s.focus j with heap := Function.update s.heap task (some t) } := by
        simp only [Server.focus, Server.passOn, HttpServer.enqueueAt, Server.receive,
          Function.update_of_ne same]
      rw [focus]
      exact (inv.worker j).heap_congr fun a holds =>
        Function.update_of_ne (inv.holds_other free holds) ..
  places a := by
    have before := inv.places a
    have others : ∀ j, j ≠ i → (s.passOn req task t i).held a j = s.held a j := by
      intro j other
      simp only [Server.held, Server.passOn, HttpServer.enqueueAt, Server.receive,
        Function.update_of_ne other]
    have mine : (s.passOn req task t i).held a i = s.held a i + if task = a then 1 else 0 := by
      simp only [Server.held, Server.passOn, HttpServer.enqueueAt, Server.receive,
        Function.update_self, TaskWorker.notify, TaskWorker.enqueueTask, doingTasks,
        List.count_cons, beq_iff_eq]
      omega
    have change := Sequence.sum_change others
    change ∑ j, (s.passOn req task t i).held a j + s.master.responseQueue.count a =
      (Function.update s.heap task (some t) a).isSome.toNat
    by_cases same : a = task
    · subst same
      have none := inv.nowhere free
      rw [if_pos rfl] at mine
      rw [Function.update_self]
      simp only [Server.places, Option.isSome_some, Bool.toNat_true] at none ⊢
      omega
    · rw [if_neg (Ne.symm same)] at mine
      rw [Function.update_of_ne same, ← before, Server.places]
      omega
  ledger := inv.ledger.receive free fresh rfl rfl rfl
  pipe := inv.pipe
  answerable a member :=
    inv.still_answerable member (inv.response_other free member) (some t)
  index := by
    have inside := i.isLt
    rintro _ ⟨rfl⟩
    rw [Int.tmod_eq_emod_of_nonneg (by omega)]
    have low := Int.emod_nonneg ((i : Nat) + 1 : Int) (b := W) (by omega)
    have high := Int.emod_lt_of_pos ((i : Nat) + 1 : Int) (b := W) (by omega)
    omega

theorem ServerInv.answer (inv : ServerInv s) {rest : List TaskPtr} {reply : Reply}
    (popped : Sequence.popTail s.master.responseQueue = some (task, rest))
    (request : s.doingRequest task = some req) : ServerInv (s.answer req task rest reply) := by
  have split := Sequence.popTail_eq_some.mp popped
  have member : task ∈ s.master.responseQueue := by simp [split]
  obtain ⟨once, free⟩ := inv.of_response member
  have gone : rest.count task = 0 := by
    rw [split, List.count_append, List.count_singleton_self] at once
    omega
  refine ⟨fun i => ?_, fun a => ?_, inv.ledger.answer request rfl rfl rfl, ?_, fun a still => ?_,
    inv.index⟩
  · refine (inv.worker i).heap_congr fun a holds => Function.update_of_ne ?_ ..
    intro same
    subst same
    exact free i holds
  · have before := inv.places a
    change ∑ i, s.held a i + rest.count a = (Function.update s.heap task none a).isSome.toNat
    rw [Server.places, split, List.count_append] at before
    by_cases same : a = task
    · subst same
      have nobody : ∑ i, s.held a i = 0 := by
        refine Finset.sum_eq_zero fun i _ => ?_
        have none := mt Server.held_pos.mp (free i)
        omega
      rw [Function.update_self, gone, nobody]
      rfl
    · have other : List.count a [task] = 0 := List.count_eq_zero.mpr (by simpa using same)
      rw [Function.update_of_ne same]
      omega
  · have before := inv.pipe
    rw [split, List.length_append, List.length_singleton] at before
    change s.master.notifyPipe - 1 = rest.length
    omega
  · have other : a ≠ task := by
      intro same
      subst same
      have present : 0 < rest.count a := List.count_pos_iff.mpr still
      omega
    exact inv.still_answerable (split ▸ List.mem_append_left _ still) other none

end master
end AsyncPing
