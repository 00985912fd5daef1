import AsyncPing.Metatheory.HandlerWalk

/-!
A worker among others. Its handlers reach only its own Tasks, and of the response queue they
only push; so they run in the same way whatever the other workers have done to their Tasks
and pushed before.
-/
namespace AsyncPing
open TaskWorker Exec

/-- The response queue after these have been pushed, the last of the list first. -/
def Master.after (m : Master) (pushed : List TaskPtr) : Master where
  responseQueue := pushed ++ m.responseQueue
  notifyPipe := m.notifyPipe + pushed.length

/-- The same worker in two surroundings. Its own Tasks are as they are, the other ones as in the
surroundings, and it reaches its own Tasks only. -/
structure World.Twins (own : TaskPtr → Prop) (w₀ v₀ w v : World) : Prop where
  worker : v.worker = w.worker
  trace : v.trace = w.trace
  inside : ∀ a, own a → v.heap a = w.heap a
  outside : ∀ a, ¬own a → w.heap a = w₀.heap a ∧ v.heap a = v₀.heap a
  responses : ∃ pushed, w.master = w₀.master.after pushed ∧ v.master = v₀.master.after pushed
  closed : ∀ a, own a → ∀ t, w.heap a = some t → ∀ p ∈ t.pings, Kin own p.parentTask
  routed : ∀ timestamp, ∀ a ∈ w.worker.doingMap timestamp, own a
  queued : ∀ a ∈ w.worker.taskQueue, own a

namespace World.Twins
variable {own : TaskPtr → Prop} {w₀ v₀ w v : World} {task : TaskPtr} {t t' : Task} {i : Nat}

theorem log (twins : Twins own w₀ v₀ w v) (e : Event) : Twins own w₀ v₀ (w.log e) (v.log e) where
  worker := twins.worker
  trace := congrArg (e :: ·) twins.trace
  inside := twins.inside
  outside := twins.outside
  responses := twins.responses
  closed := twins.closed
  routed := twins.routed
  queued := twins.queued

theorem setTask (twins : Twins own w₀ v₀ w v) (mine : own task)
    (kin : ∀ p ∈ t'.pings, Kin own p.parentTask) :
    Twins own w₀ v₀ (w.setTask task t') (v.setTask task t') where
  worker := twins.worker
  trace := twins.trace
  inside a held := by
    by_cases same : a = task
    · rw [same, World.setTask_heap, World.setTask_heap, Function.update_self, Function.update_self]
    · rw [World.setTask_heap, World.setTask_heap, Function.update_of_ne same,
        Function.update_of_ne same, twins.inside a held]
  outside a free := by
    have other : a ≠ task := fun same => free (same ▸ mine)
    rw [World.setTask_heap, World.setTask_heap, Function.update_of_ne other,
      Function.update_of_ne other]
    exact twins.outside a free
  responses := twins.responses
  closed a held t live := by
    by_cases same : a = task
    · rw [same, World.setTask_heap, Function.update_self, Option.some.injEq] at live
      exact live ▸ kin
    · rw [World.setTask_heap, Function.update_of_ne same] at live
      exact twins.closed a held t live
  routed := twins.routed
  queued := twins.queued

/-- A change of the worker that keeps its Tasks. -/
theorem setWorker (twins : Twins own w₀ v₀ w v) (f : TaskWorker → TaskWorker)
    (routed : ∀ timestamp, ∀ a ∈ (f w.worker).doingMap timestamp, own a)
    (queued : ∀ a ∈ (f w.worker).taskQueue, own a) :
    Twins own w₀ v₀ { w with worker := f w.worker } { v with worker := f v.worker } where
  worker := congrArg f twins.worker
  trace := twins.trace
  inside := twins.inside
  outside := twins.outside
  responses := twins.responses
  closed := twins.closed
  routed := routed
  queued := queued

theorem enqueueResponse (twins : Twins own w₀ v₀ w v) (task : TaskPtr) :
    Twins own w₀ v₀ { w with master := w.master.enqueueResponse task }
      { v with master := v.master.enqueueResponse task } where
  worker := twins.worker
  trace := twins.trace
  inside := twins.inside
  outside := twins.outside
  responses := by
    obtain ⟨pushed, first, second⟩ := twins.responses
    refine ⟨task :: pushed, ?_, ?_⟩
    · rw [first]
      rfl
    · rw [second]
      rfl
  closed := twins.closed
  routed := twins.routed
  queued := twins.queued

/-- The handlers cannot tell the surroundings apart. -/
theorem undisturbed : Undisturbed own (Twins own w₀ v₀) where
  worker twins := twins.worker
  inside twins mine := twins.inside _ mine
  closed twins mine live := twins.closed _ mine _ live
  routed twins := twins.routed
  log twins _ := twins.log _
  setTask twins mine live fixed := by
    refine twins.setTask mine fun p member => ?_
    obtain ⟨q, before, same⟩ := List.mem_map.mp (fixed ▸ List.mem_map_of_mem member)
    have parent : q.parentTask = p.parentTask := congrArg Prod.snd same
    exact parent ▸ twins.closed _ mine _ live q before
  setWorker {w v} twins f same routed := by
    have queue : (f w.worker).taskQueue = w.worker.taskQueue := congrArg Channel.queue (same _)
    exact twins.setWorker f routed fun a queued => twins.queued a (queue ▸ queued)
  enqueueResponse twins task := twins.enqueueResponse task

theorem notifyEventHandler (twins : Twins own w₀ v₀ w v) (now : UInt64)
    (outcomes : Nat → SendOutcome) :
    Handler.Keeps (Twins own w₀ v₀) (fun _ => True) (notifyEventHandler now outcomes) w v := by
  refine notifyEventHandler_keeps undisturbed twins.worker ?_ ?_ now outcomes
  · intro _
    exact twins.setWorker (fun worker => { worker with notifyPipe := worker.notifyPipe - 1 })
      twins.routed twins.queued
  · intro task rest popped
    have split := Sequence.popTail_eq_some.mp popped
    refine ⟨twins.queued task (split ▸ List.mem_append_right rest (List.mem_singleton_self task)),
      twins.setWorker (fun worker => { worker with
        notifyPipe := worker.notifyPipe - 1, taskQueue := rest }) twins.routed fun a member => ?_⟩
    exact twins.queued a (split ▸ List.mem_append_left [task] member)

end World.Twins

/-- A handler of the event loop does the same in both surroundings. -/
theorem World.Twins.serve {own : TaskPtr → Prop} {w₀ v₀ w v w' : World} {l : WorkerMove}
    (twins : Twins own w₀ v₀ w v)
    (timers : ∀ event, (w.worker.base event).isSome = true → own event.1)
    (loop : l.InLoop) (offered : l.enabled w) (served : l.serve w = .ok w') :
    l.enabled v ∧ ∃ v', l.serve v = .ok v' ∧ Twins own w₀ v₀ w' v' := by
  have through {m : Handler Unit} {w v : World}
      (parallel : Handler.Keeps (Twins own w₀ v₀) (fun _ => True) m w v)
      (run : (m w).map Prod.snd = .ok w') :
      ∃ v', (m v).map Prod.snd = .ok v' ∧ Twins own w₀ v₀ w' v' := by
    cases result : m w with
    | error fault =>
        rw [result] at run
        cases run
    | ok outcome =>
        rw [result] at run
        cases run
        obtain ⟨_, v', result', twins'⟩ := parallel _ _ result
        exact ⟨v', by rw [result']; rfl, twins'⟩
  cases l with
  | request | deleted => exact loop.elim
  | notified now outcomes =>
      have byte : 0 < v.worker.notifyPipe := twins.worker ▸ offered
      exact ⟨byte, through (twins.notifyEventHandler now outcomes) served⟩
  | datagram timestamp seq index now =>
      exact ⟨trivial, through (onReceive_keeps undisturbed twins timestamp seq index now) served⟩
  | expired task i =>
      have armed : (v.worker.base (task, i)).isSome = true := twins.worker ▸ offered
      exact ⟨armed, through (fire_keeps undisturbed twins (timers _ offered)) served⟩

end AsyncPing
