import AsyncPing.Metatheory.WorkerSteps

/-!
Custody of Task objects. A worker holds the tasks in its queue and those it has
admitted; what it hands back goes to the response queue. A handler moves tasks
between these places without duplicating or losing one, changes no object its
worker does not hold, and neither creates nor destroys an object. A response
enters the queue as the trace says it was handed over.
-/
namespace AsyncPing
open TaskWorker

namespace World

/-- In how many places the worker or the response queue has this task. -/
def holdings (w : World) (a : TaskPtr) : Nat :=
  w.worker.taskQueue.count a + (if a ∈ doingTasks w.trace then 1 else 0) +
    w.master.responseQueue.count a

def Holds (w : World) (a : TaskPtr) : Prop :=
  a ∈ w.worker.taskQueue ∨ a ∈ doingTasks w.trace

/-- Not held any more, and still as it was handed over. -/
structure Returned (w : World) (a : TaskPtr) : Prop where
  free : ¬ w.Holds a
  frozen : ∃ t timers rest, w.heap a = some t ∧
    taskLog a w.trace = .sendToMaster (some t) timers :: rest

structure Acts (w w' : World) : Prop extends w.Later w' where
  held : ∀ a, w'.Holds a → w.Holds a
  heap : ∀ a, ¬ w.Holds a → w'.heap a = w.heap a
  live : ∀ a, (w'.heap a).isSome = (w.heap a).isSome
  custody : ∀ a, w'.holdings a = w.holdings a
  pipe : w'.master.notifyPipe + w.master.responseQueue.length =
    w.master.notifyPipe + w'.master.responseQueue.length
  histories : ∀ a, ¬ w.Holds a → taskLog a w'.trace = taskLog a w.trace
  responses : ∀ a ∈ w'.master.responseQueue, a ∈ w.master.responseQueue ∨ w'.Returned a

theorem Returned.acts {w w' : World} {a : TaskPtr} (returned : w.Returned a)
    (acts : w.Acts w') : w'.Returned a := by
  obtain ⟨t, timers, rest, live, log⟩ := returned.frozen
  exact ⟨mt (acts.held a) returned.free, t, timers, rest,
    (acts.heap a returned.free).trans live, (acts.histories a returned.free).trans log⟩

namespace Acts
variable {w w' w'' : World} {task : TaskPtr} {t t' : Task}

theorem refl (w : World) : w.Acts w :=
  ⟨.refl w, fun _ => id, fun _ _ => rfl, fun _ => rfl, fun _ => rfl, rfl, fun _ _ => rfl,
    fun _ => .inl⟩

theorem trans (first : w.Acts w') (second : w'.Acts w'') : w.Acts w'' where
  toLater := first.toLater.trans second.toLater
  held a now := first.held a (second.held a now)
  heap a free := (second.heap a (mt (first.held a) free)).trans (first.heap a free)
  live a := (second.live a).trans (first.live a)
  custody a := (second.custody a).trans (first.custody a)
  pipe := by
    have before := first.pipe
    have after := second.pipe
    omega
  histories a free :=
    (second.histories a (mt (first.held a) free)).trans (first.histories a free)
  responses a member := by
    cases second.responses a member with
    | inl earlier =>
        exact (first.responses a earlier).imp_right fun returned => returned.acts second
    | inr returned => exact .inr returned

/-- An update at a held address changes neither the rest nor which addresses are live. -/
theorem heap_update (t' : Task) (holds : w.Holds task) (live : w.heap task = some t) :
    (∀ a, ¬ w.Holds a → Function.update w.heap task (some t') a = w.heap a) ∧
      ∀ a, (Function.update w.heap task (some t') a).isSome = (w.heap a).isSome := by
  constructor
  · intro a free
    refine Function.update_of_ne ?_ _ _
    intro same
    subst same
    exact free holds
  · intro a
    by_cases same : a = task
    · subst same
      rw [Function.update_self, live]
      rfl
    · rw [Function.update_of_ne same]

theorem touchPing {i : Nat} {timer : Option Int32} {evs : List Event}
    (held : task ∈ doingTasks w.trace) (live : w.heap task = some t)
    (at_i : ∀ e ∈ evs, e.Local task i) : w.Acts (w.touchPing task i t' timer evs) := by
  have doing : doingTasks (evs ++ w.trace) = doingTasks w.trace := doingTasks_local at_i w.trace
  obtain ⟨elsewhere, alive⟩ := heap_update t' (.inr held) live
  refine ⟨touchPing_later, ?_, elsewhere, alive, ?_, rfl,
    fun a _ => taskLog_local at_i a w.trace, fun _ => .inl⟩
  · intro a now
    simpa only [Holds, World.touchPing, doing] using now
  · intro a
    simp only [holdings, World.touchPing, doing]

theorem log {e : Event} (access : e.Accesses task) : w.Acts (w.log e) := by
  have doing : doingTasks (e :: w.trace) = doingTasks w.trace := by
    cases e with
    | accessTask _ | accessPing _ _ => rfl
    | enqueue _ _ | clock _ | eventDel _ _ | ping _ _ _ | task _ _ => exact access.elim
  refine ⟨⟨rfl, rfl, rfl, List.suffix_cons e w.trace⟩, ?_, fun _ _ => rfl, fun _ => rfl, ?_, rfl,
    ?_, fun _ => .inl⟩
  · intro a now
    simpa only [Holds, World.log, doing] using now
  · intro a
    simp only [holdings, World.log, doing]
  · intro a _
    cases e with
    | accessTask _ | accessPing _ _ => rfl
    | enqueue _ _ | clock _ | eventDel _ _ | ping _ _ _ | task _ _ => exact access.elim

theorem handBack (held : task ∈ doingTasks w.trace) (live : w.heap task = some t)
    (apart : task ∉ w.worker.taskQueue) : w.Acts (w.handBack task t) := by
  have gone : task ∉ (doingTasks w.trace).erase task := Finset.notMem_erase task _
  refine ⟨⟨rfl, rfl, rfl, List.suffix_append [_, _, _] w.trace⟩, ?_, fun _ _ => rfl,
    fun _ => rfl, ?_, ?_, ?_, ?_⟩
  · intro a now
    exact now.imp_right fun still => Finset.mem_of_mem_erase still
  · intro a
    simp only [holdings, World.handBack, doingTasks, Master.enqueueResponse, List.count_cons,
      Finset.mem_erase]
    by_cases same : a = task
    · subst same
      simp only [ne_eq, not_true_eq_false, false_and, if_false, held, if_true, beq_self_eq_true]
      omega
    · have apart : ¬ task = a := fun eq => same eq.symm
      simp [same, apart]
  · simp only [World.handBack, Master.enqueueResponse, List.length_cons]
    omega
  · intro a free
    have other : a ≠ task := fun same => free (.inr (same ▸ held))
    exact (handBack_touches.keeps a other).taskLog
  · intro a member
    cases List.mem_cons.mp member with
    | inl same =>
        subst same
        exact .inr ⟨fun now => now.elim apart gone, t, _, _, live, handBack_taskLog⟩
    | inr earlier => exact .inl earlier

theorem finish (held : task ∈ doingTasks w.trace) (live : w.heap task = some t)
    (apart : task ∉ w.worker.taskQueue) : w.Acts (w.finish task t) := by
  rw [World.finish]
  split
  · exact handBack held live apart
  · exact refl w

variable {rest : List TaskPtr} {now : UInt64}
  (popped : Sequence.popTail w.worker.taskQueue = some (task, rest))
  (idle : task ∉ doingTasks w.trace) (live : w.heap task = some t)
include popped idle live

theorem refuse (apart : task ∉ rest) : w.Acts (w.refuse task rest t) := by
  have split := Sequence.popTail_eq_some.mp popped
  have holds : w.Holds task := .inl (by simp [split])
  obtain ⟨elsewhere, alive⟩ := heap_update
    { t with prepareError := true, preErrorCode := 1005 } holds live
  have gone : task ∉ (doingTasks w.trace).erase task := Finset.notMem_erase task _
  refine ⟨⟨rfl, rfl, rfl, List.suffix_append [_, _] w.trace⟩, ?_, elsewhere, alive, ?_, ?_, ?_, ?_⟩
  · intro a now
    refine now.imp (fun member => ?_) fun still => Finset.mem_of_mem_erase still
    rw [split]
    exact List.mem_append_left _ member
  · intro a
    have same : (doingTasks w.trace).erase task = doingTasks w.trace :=
      Finset.erase_eq_of_notMem idle
    simp only [holdings, World.refuse, doingTasks, Master.enqueueResponse, List.count_cons, same,
      split, List.count_append, List.count_nil]
    omega
  · simp only [World.refuse, Master.enqueueResponse, List.length_cons]
    omega
  · intro a free
    have other : ¬ task = a := fun same => free (same ▸ holds)
    simp only [World.refuse, taskLog, if_neg other]
  · intro a member
    cases List.mem_cons.mp member with
    | inl same =>
        subst same
        exact .inr ⟨fun now => now.elim apart gone, _, _, _, Function.update_self ..,
          refuse_taskLog⟩
    | inr earlier => exact .inl earlier

theorem accept : w.Acts (w.accept task rest t now) := by
  have split := Sequence.popTail_eq_some.mp popped
  have holds : w.Holds task := .inl (by simp [split])
  obtain ⟨elsewhere, alive⟩ := heap_update { t with timestamp := now } holds live
  refine ⟨⟨rfl, rfl, rfl, List.suffix_append [_, _, _] w.trace⟩, ?_, elsewhere, alive, ?_, rfl,
    ?_, fun _ => .inl⟩
  · rintro a (member | admitted)
    · refine .inl ?_
      rw [split]
      exact List.mem_append_left _ member
    · cases Finset.mem_insert.mp admitted with
      | inl same =>
          subst same
          exact holds
      | inr still => exact .inr still
  · intro a
    simp only [holdings, World.accept, doingTasks, Finset.mem_insert, split, List.count_append,
      List.count_cons, List.count_nil]
    by_cases same : a = task
    · subst same
      simp only [idle, beq_self_eq_true, if_true, if_false, true_or]
    · have apart : ¬ task = a := fun eq => same eq.symm
      simp [same, apart]
  · intro a free
    have other : ¬ task = a := fun same => free (same ▸ holds)
    simp only [World.accept, taskLog, if_neg other]

end Acts
end World
end AsyncPing
