import AsyncPing.Library.Parallel
import AsyncPing.Core.Channel
import AsyncPing.Core.WorkerSystem

/-!
One walk over the handlers of a TaskWorker, for every relation between two runs that no step
of theirs disturbs. What a handler leaves alone is such a relation between a run and itself.
-/
namespace AsyncPing
open TaskWorker Exec

/-- The Tasks that were sent to the worker, newest first, as they were then. -/
def dispatched : List Event → List (TaskPtr × Task)
  | [] => []
  | .enqueue task contents :: trace => (task, contents) :: dispatched trace
  | .accessTask _ :: trace | .accessPing _ _ :: trace | .clock _ :: trace
  | .eventDel _ _ :: trace | .ping _ _ _ :: trace | .task _ _ :: trace => dispatched trace

/-- The Task this pointer may lead to is one of the worker's own. -/
def Kin (own : TaskPtr → Prop) (pointer : Option TaskPtr) : Prop := ∀ b ∈ pointer, own b

/-- What no handler writes in a ping. -/
def Ping.fixed (p : Ping) : String × Option TaskPtr := (p.ip, p.parentTask)

/-- Two runs of one worker, related in a way that no step of its handlers disturbs, as long as
they reach its own Tasks only. -/
structure Undisturbed (own : TaskPtr → Prop) (R : World → World → Prop) : Prop where
  worker {w v} : R w v → v.worker = w.worker
  inside {w v} {a} : R w v → own a → v.heap a = w.heap a
  closed {w v} {a} {t} : R w v → own a → w.heap a = some t → ∀ p ∈ t.pings, Kin own p.parentTask
  routed {w v} : R w v → ∀ timestamp, ∀ a ∈ w.worker.doingMap timestamp, own a
  log {w v} {e} : R w v → (∀ trace, dispatched (e :: trace) = dispatched trace) →
    R (w.log e) (v.log e)
  setTask {w v} {a} {t t'} : R w v → own a → w.heap a = some t →
    t'.pings.map Ping.fixed = t.pings.map Ping.fixed → R (w.setTask a t') (v.setTask a t')
  setWorker {w v} : R w v → ∀ f : TaskWorker → TaskWorker,
    (∀ worker, (f worker).channel = worker.channel) →
    (∀ timestamp, ∀ a ∈ (f w.worker).doingMap timestamp, own a) →
    R { w with worker := f w.worker } { v with worker := f v.worker }
  enqueueResponse {w v} : R w v → ∀ task,
    R { w with master := w.master.enqueueResponse task }
      { v with master := v.master.enqueueResponse task }

/-- Run side by side from these states, the handler keeps the relation. -/
abbrev Handler.Keeps {α : Type} (R : World → World → Prop) (Q : α → Prop) (m : Handler α)
    (w v : World) : Prop :=
  Parallel R Q m m w v

theorem Task.fixed_setPing {t : Task} {i : Nat} {p p' : Ping} (entry : t.pings[i]? = some p)
    (same : p'.fixed = p.fixed) :
    (t.setPing i p').pings.map Ping.fixed = t.pings.map Ping.fixed := by
  rw [Task.pings_setPing, List.map_set, same]
  refine List.ext_getElem? fun j => ?_
  rw [List.getElem?_set]
  split
  · rename_i here
    subst here
    have inside := (List.getElem?_eq_some_iff.mp entry).1
    rw [List.length_map, if_pos inside, List.getElem?_map, entry]
    rfl
  · rfl

section handlers
variable {own : TaskPtr → Prop} {R : World → World → Prop} {w v : World} {task : TaskPtr}
  {i : Nat} (kept : Undisturbed own R)
include kept

/-! ## Accessors -/

theorem readTask_keeps (related : R w v) (mine : own task) :
    Handler.Keeps R (fun t => ∀ p ∈ t.pings, Kin own p.parentTask) (readTask task) w v := by
  apply Parallel.get_bind
  rw [kept.inside related mine]
  cases live : w.heap task with
  | none => exact .throw _ _
  | some t =>
      refine .bind (.modify (kept.log related fun _ => rfl)) fun _ _ _ _ related' => ?_
      exact .pure (kept.closed related mine live) related'

theorem writeTask_keeps (related : R w v) (mine : own task) {f : Task → Task}
    (same : ∀ t, (f t).pings = t.pings) :
    Handler.Keeps R (fun _ => True) (writeTask task f) w v := by
  intro u w' run
  rw [← bind_pure (writeTask task f), writeTask_bind] at run ⊢
  rw [kept.inside related mine]
  cases live : w.heap task with
  | none =>
      rw [live] at run
      cases run
  | some t =>
      rw [live] at run
      cases run
      refine ⟨trivial, _, rfl, ?_⟩
      exact kept.setTask (kept.log related fun _ => rfl) mine live (by rw [same])

theorem readPing_keeps (related : R w v) (mine : own task) :
    Handler.Keeps R (fun p => Kin own p.parentTask) (readPing task i) w v := by
  apply Parallel.get_bind
  rw [kept.inside related mine]
  cases live : w.heap task with
  | none => exact .throw _ _
  | some t =>
      dsimp only
      cases entry : t.pings[i]? with
      | none => exact .throw _ _
      | some p =>
          refine .bind (.modify (kept.log related fun _ => rfl)) fun _ _ _ _ related' => ?_
          exact .pure (kept.closed related mine live p (List.mem_of_getElem? entry)) related'

theorem writePing_keeps (related : R w v) (mine : own task) {f : Ping → Ping}
    (same : ∀ p, (f p).fixed = p.fixed) :
    Handler.Keeps R (fun _ => True) (writePing task i f) w v := by
  intro u w' run
  rw [← bind_pure (writePing task i f), writePing_bind] at run ⊢
  rw [kept.inside related mine]
  cases live : w.heap task with
  | none =>
      rw [live] at run
      cases run
  | some t =>
      rw [live, Option.elim_some] at run
      rw [Option.elim_some]
      cases entry : t.pings[i]? with
      | none =>
          rw [entry] at run
          cases run
      | some p =>
          rw [entry] at run
          cases run
          refine ⟨trivial, _, rfl, ?_⟩
          exact kept.setTask (kept.log related fun _ => rfl) mine live
            (Task.fixed_setPing entry (same p))

theorem currentTime_keeps (related : R w v) (now : UInt64) :
    Handler.Keeps R (fun _ => True) (currentTime now) w v :=
  .bind (.modify (kept.log related fun _ => rfl)) fun _ _ _ _ related => .pure trivial related

theorem derefWorker_keeps (related : R w v) (pointer : Option Nat) :
    Handler.Keeps R (fun _ => True) (derefWorker pointer) w v := by
  cases pointer with
  | none => exact .throw _ _
  | some self =>
      apply Parallel.get_bind
      rw [kept.worker related]
      split
      · exact .pure trivial related
      · exact .throw _ _

omit kept in
theorem derefTask_keeps (related : R w v) {pointer : Option TaskPtr}
    (kin : Kin own pointer) : Handler.Keeps R own (derefTask pointer) w v := by
  cases pointer with
  | none => exact .throw _ _
  | some task => exact .pure (kin task rfl) related

theorem setTimer_modify_keeps (related : R w v) (event : EventPtr) (tv : Option Int32) :
    Handler.Keeps R (fun _ => True) (modify (·.setTimer event tv)) w v :=
  .modify (kept.setWorker related (fun worker => { worker with
    base := Function.update worker.base event tv }) (fun _ => rfl) (kept.routed related))

theorem eventDel_keeps (related : R w v) (event : Option EventPtr) :
    Handler.Keeps R (fun _ => True) (eventDel event) w v := by
  cases event with
  | none => exact .throw _ _
  | some event =>
      apply Parallel.get_bind
      rw [kept.worker related]
      refine .bind (.modify (kept.log related fun _ => rfl)) fun _ _ _ _ related => ?_
      exact setTimer_modify_keeps kept related event none

/-! ## Handlers -/

theorem sendToMaster_keeps (related : R w v) (mine : own task) :
    Handler.Keeps R (fun _ => True) (sendToMaster task) w v := by
  apply Parallel.get_bind
  rw [kept.worker related, kept.inside related mine]
  refine .bind (.modify (kept.log related fun _ => rfl)) fun _ _ _ _ related => .modify ?_
  exact kept.enqueueResponse related task

theorem eraseDoing_keeps (related : R w v) (timestamp : UInt64) :
    Handler.Keeps R (fun _ => True) (modify (eraseDoing timestamp)) w v := by
  refine .modify (kept.setWorker related (fun worker => { worker with
    doingMap := Function.update worker.doingMap timestamp none }) (fun _ => rfl) ?_)
  intro ts a member
  change a ∈ Function.update w.worker.doingMap timestamp none ts at member
  by_cases same : ts = timestamp
  · rw [same, Function.update_self] at member
    cases member
  · rw [Function.update_of_ne same] at member
    exact kept.routed related ts a member

theorem onComplete_keeps (related : R w v) (mine : own task) :
    Handler.Keeps R (fun _ => True) (onComplete task) w v := by
  refine .bind (.modify (kept.log related fun _ => rfl)) fun _ _ _ _ related => ?_
  refine .bind (.modify (kept.setWorker related (fun worker => { worker with
    doingCount := worker.doingCount - 1 }) (fun _ => rfl) (kept.routed related)))
    fun _ _ _ _ related => ?_
  refine .bind (readTask_keeps kept related mine) fun t w v _ related => ?_
  apply Parallel.get_bind
  rw [kept.worker related]
  split
  · exact sendToMaster_keeps kept related mine
  · refine .bind (eraseDoing_keeps kept related _) fun _ _ _ _ related => ?_
    exact sendToMaster_keeps kept related mine

theorem onReceive_keeps (related : R w v) (timestamp : UInt64)
    (seq index : UInt16) (now : UInt64) :
    Handler.Keeps R (fun _ => True) (onReceive timestamp seq index now) w v := by
  apply Parallel.get_bind
  rw [kept.worker related]
  split
  · exact .pure trivial related
  rename_i task route
  have mine := kept.routed related timestamp task route
  refine .bind (readTask_keeps kept related mine) fun t _ _ _ related => ?_
  split
  · exact .pure trivial related
  refine .bind (readPing_keeps kept related mine) fun p _ _ _ related => ?_
  split
  · exact .pure trivial related
  refine .bind (writeTask_keeps kept related mine fun _ => rfl) fun _ _ _ _ related => ?_
  refine .bind (writePing_keeps kept related mine fun _ => rfl) fun _ _ _ _ related => ?_
  refine .bind (currentTime_keeps kept related now) fun _ _ _ _ related => ?_
  refine .bind (writePing_keeps kept related mine fun _ => rfl) fun _ _ _ _ related => ?_
  refine .bind (.modify (kept.log related fun _ => rfl)) fun _ _ _ _ related => ?_
  refine .bind (eventDel_keeps kept related _) fun _ _ _ _ related => ?_
  refine .bind (readTask_keeps kept related mine) fun t _ _ _ related => ?_
  split
  · exact onComplete_keeps kept related mine
  · exact .pure trivial related

theorem countDone_keeps (related : R w v) {parent : Option TaskPtr}
    (kin : Kin own parent) (worker : Option Nat) :
    Handler.Keeps R (fun _ => True) (do
      let parentTask ← derefTask parent
      writeTask parentTask fun t => { t with doneCount := t.doneCount + 1 }
      let t ← readTask parentTask
      if t.isComplete then
        let _ ← derefWorker worker
        onComplete parentTask) w v := by
  refine .bind (derefTask_keeps related kin) fun parentTask _ _ mine related => ?_
  refine .bind (writeTask_keeps kept related mine fun _ => rfl) fun _ _ _ _ related => ?_
  refine .bind (readTask_keeps kept related mine) fun t _ _ _ related => ?_
  split
  · refine .bind (derefWorker_keeps kept related worker) fun _ _ _ _ related => ?_
    exact onComplete_keeps kept related mine
  · exact .pure trivial related

theorem handleTimeout_keeps (related : R w v) (mine : own task) :
    Handler.Keeps R (fun _ => True) (Ping.handleTimeout task i) w v := by
  refine .bind (readPing_keeps kept related mine) fun me _ _ kin related => ?_
  split
  · exact .pure trivial related
  refine .bind (writePing_keeps kept related mine fun _ => rfl) fun _ _ _ _ related => ?_
  refine .bind (.modify (kept.log related fun _ => rfl)) fun _ _ _ _ related => ?_
  exact countDone_keeps kept related kin _

/-- The timer of a ping fires. -/
theorem fire_keeps (related : R w v) (mine : own task) :
    Handler.Keeps R (fun _ => True) (fun w => w.fire task i) w v := by
  have disarmed := kept.setWorker related (fun worker => { worker with
    base := Function.update worker.base (task, i) none }) (fun _ => rfl) (kept.routed related)
  exact handleTimeout_keeps kept disarmed mine

theorem sendFailed_keeps (related : R w v) (mine : own task) :
    Handler.Keeps R (fun _ => True) (Ping.sendFailed task i) w v := by
  refine .bind (readPing_keeps kept related mine) fun me _ _ kin related => ?_
  split
  · refine .bind (writePing_keeps kept related mine fun _ => rfl) fun _ _ _ _ related => ?_
    refine .bind (.modify (kept.log related fun _ => rfl)) fun _ _ _ _ related => ?_
    exact countDone_keeps kept related kin _
  · exact .pure trivial related

theorem setTimer_keeps (related : R w v) (mine : own task) :
    Handler.Keeps R (fun _ => True) (Ping.setTimer task i) w v := by
  refine .bind (readPing_keeps kept related mine) fun me _ _ _ related => ?_
  refine .bind (derefWorker_keeps kept related _) fun _ _ _ _ related => ?_
  refine .bind (writePing_keeps kept related mine fun _ => rfl) fun _ _ _ _ related => ?_
  exact setTimer_modify_keeps kept related _ _

theorem start_keeps (related : R w v) (mine : own task) (outcome : SendOutcome) :
    Handler.Keeps R (fun _ => True) (Ping.start task i outcome) w v := by
  refine .bind (.modify (kept.log related fun _ => rfl)) fun _ _ _ _ related => ?_
  refine .bind (readPing_keeps kept related mine) fun me _ _ kin related => ?_
  refine .bind (derefWorker_keeps kept related _) fun worker _ _ _ related => ?_
  refine .bind (derefTask_keeps related kin) fun parentTask _ _ parent related => ?_
  refine .bind (readTask_keeps kept related parent) fun t _ _ _ related => ?_
  dsimp only
  split
  · exact sendFailed_keeps kept related mine
  refine .bind (currentTime_keeps kept related _) fun _ _ _ _ related => ?_
  refine .bind (writePing_keeps kept related mine fun _ => rfl) fun _ _ _ _ related => ?_
  split
  · exact sendFailed_keeps kept related mine
  refine .bind (.modify (kept.log related fun _ => rfl)) fun _ _ _ _ related => ?_
  refine .bind (writePing_keeps kept related mine fun _ => rfl) fun _ _ _ _ related => ?_
  exact setTimer_keeps kept related mine

theorem doTaskFrom_keeps (related : R w v) (mine : own task)
    (outcomes : Nat → SendOutcome) (fuel : Nat) :
    Handler.Keeps R (fun _ => True) (doTaskFrom task outcomes fuel i) w v := by
  induction fuel generalizing i w v with
  | zero => exact .throw _ _
  | succ fuel ih =>
      refine .bind (readTask_keeps kept related mine) fun t w v _ related => ?_
      split
      · apply Parallel.get_bind
        rw [kept.worker related]
        refine .bind (writePing_keeps kept related mine fun _ => rfl) fun _ _ _ _ related => ?_
        exact .bind (start_keeps kept related mine _) fun _ _ _ _ related => ih related
      · exact .pure trivial related

theorem insertDoing_keeps (related : R w v) (mine : own task) (now : UInt64) :
    Handler.Keeps R (fun _ => True) (modify (insertDoing now task)) w v := by
  refine .modify ?_
  rw [insertDoing, insertDoing, kept.worker related]
  split
  · exact related
  refine kept.worker related ▸ kept.setWorker related (fun worker => { worker with
    doingMap := Function.update worker.doingMap now (some task) }) (fun _ => rfl) ?_
  intro ts a member
  change a ∈ Function.update w.worker.doingMap now (some task) ts at member
  by_cases same : ts = now
  · rw [same, Function.update_self] at member
    exact Option.mem_some_iff.mp member ▸ mine
  · rw [Function.update_of_ne same] at member
    exact kept.routed related ts a member

theorem doTask_keeps (related : R w v) (mine : own task)
    (outcomes : Nat → SendOutcome) :
    Handler.Keeps R (fun _ => True) (doTask task outcomes) w v := by
  apply Parallel.get_bind
  rw [kept.inside related mine]
  exact doTaskFrom_keeps kept related mine outcomes _

/-- The byte is read and the queue popped before; the relation holds of the states then. -/
theorem notifyEventHandler_keeps (same : v.worker = w.worker)
    (idle : Sequence.popTail w.worker.taskQueue = none →
      R { w with worker := { w.worker with notifyPipe := w.worker.notifyPipe - 1 } }
        { v with worker := { v.worker with notifyPipe := v.worker.notifyPipe - 1 } })
    (popped : ∀ task rest, Sequence.popTail w.worker.taskQueue = some (task, rest) → own task ∧
      R { w with worker := { w.worker with
            notifyPipe := w.worker.notifyPipe - 1, taskQueue := rest } }
        { v with worker := { v.worker with
            notifyPipe := v.worker.notifyPipe - 1, taskQueue := rest } })
    (now : UInt64) (outcomes : Nat → SendOutcome) :
    Handler.Keeps R (fun _ => True) (notifyEventHandler now outcomes) w v := by
  apply Parallel.modify_bind
  apply Parallel.get_bind
  rw [same] at idle popped ⊢
  cases tail : Sequence.popTail w.worker.taskQueue with
  | none => exact .pure trivial (idle tail)
  | some result =>
      obtain ⟨task, rest⟩ := result
      obtain ⟨mine, related⟩ := popped task rest tail
      apply Parallel.modify_bind
      dsimp only
      split
      · refine .bind (writeTask_keeps kept related mine fun _ => rfl) fun _ _ _ _ related => ?_
        refine .bind (sendToMaster_keeps kept related mine) fun _ _ _ _ related => ?_
        exact .pure trivial related
      · refine .bind (currentTime_keeps kept related now) fun now _ _ _ related => ?_
        refine .bind (writeTask_keeps kept related mine fun _ => rfl) fun _ _ _ _ related => ?_
        refine .bind (insertDoing_keeps kept related mine now) fun _ _ _ _ related => ?_
        refine .bind (.modify (kept.setWorker related (fun worker => { worker with
          doingCount := worker.doingCount + 1 }) (fun _ => rfl) (kept.routed related)))
          fun _ _ _ _ related => ?_
        refine .bind (.modify (kept.log related fun _ => rfl)) fun _ _ _ _ related => ?_
        exact doTask_keeps kept related mine outcomes

end handlers

/-- What holds of a worker's world whatever its handlers do, the pop apart. -/
structure Lasting (P : World → Prop) : Prop where
  log {w} {e} : P w → (∀ trace, dispatched (e :: trace) = dispatched trace) → P (w.log e)
  setTask {w} {a} {t t'} : P w → w.heap a = some t →
    t'.pings.map Ping.fixed = t.pings.map Ping.fixed → P (w.setTask a t')
  setWorker {w} : P w → ∀ f : TaskWorker → TaskWorker,
    (∀ worker, (f worker).channel = worker.channel) → P { w with worker := f w.worker }
  enqueueResponse {w} : P w → ∀ task, P { w with master := w.master.enqueueResponse task }

namespace Lasting
variable {P : World → Prop} {w w' : World}

/-- The run beside itself. -/
theorem undisturbed (lasting : Lasting P) :
    Undisturbed (fun _ => True) fun w v => v = w ∧ P w where
  worker related := congrArg World.worker related.1
  inside related _ := congrFun (congrArg World.heap related.1) _
  closed _ _ _ _ _ _ _ := trivial
  routed _ _ _ _ := trivial
  log related silent := ⟨congrArg (World.log · _) related.1, lasting.log related.2 silent⟩
  setTask related _ live fixed :=
    ⟨congrArg (World.setTask · _ _) related.1, lasting.setTask related.2 live fixed⟩
  setWorker related f same _ := by
    obtain ⟨rfl, holds⟩ := related
    exact ⟨rfl, lasting.setWorker holds f same⟩
  enqueueResponse related task := by
    obtain ⟨rfl, holds⟩ := related
    exact ⟨rfl, lasting.enqueueResponse holds task⟩

theorem of_run {Q : Unit → Prop} {m : Handler Unit}
    (keeps : Handler.Keeps (fun w v => v = w ∧ P w) Q m w w)
    (run : (m w).map Prod.snd = .ok w') : P w' := by
  cases result : m w with
  | error fault =>
      rw [result] at run
      cases run
  | ok outcome =>
      rw [result] at run
      cases run
      obtain ⟨-, -, -, -, after⟩ := keeps _ _ result
      exact after

/-- What the pop leaves as well, every handler of the event loop leaves. -/
theorem serve {l : WorkerMove} (lasting : Lasting P)
    (pop : ∀ pipe queue, P { w with
      worker := { w.worker with notifyPipe := pipe, taskQueue := queue } })
    (loop : l.InLoop) (holds : P w) (served : l.serve w = .ok w') : P w' := by
  have kept := lasting.undisturbed
  cases l with
  | request | deleted => exact loop.elim
  | notified now outcomes =>
      refine of_run (notifyEventHandler_keeps kept rfl ?_ ?_ now outcomes) served
      · exact fun _ => ⟨rfl, pop _ _⟩
      · exact fun _ _ _ => ⟨trivial, rfl, pop _ _⟩
  | datagram timestamp seq index now =>
      exact of_run (onReceive_keeps kept ⟨rfl, holds⟩ timestamp seq index now) served
  | expired task i => exact of_run (fire_keeps kept ⟨rfl, holds⟩ trivial) served

end Lasting
end AsyncPing
