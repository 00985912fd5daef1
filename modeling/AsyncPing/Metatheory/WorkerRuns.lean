import AsyncPing.Metatheory.AdmissionSoundness
import AsyncPing.Metatheory.TaskConstructor

/-!
Whole runs of one TaskWorker. In every reachable state the invariant of the
worker holds, every live Task is in exactly one place, and a response is still
as it was handed over. An enabled move runs through unless a reply leaves the
ping array, so the proviso on replies is all that a run needs.
-/
namespace AsyncPing
open TaskWorker

/-! ## One move -/

/-- What a move that runs through has done. -/
inductive World.Moved (w : World) : WorkerMove → World → Prop
  | request (task : TaskPtr) (raw : RawMemory) (fuel : Nat) (body : Value) (t : Task)
      (free : w.heap task = none) (accepted : Task.accepted task raw fuel body = some t) :
      Moved w (.request task raw fuel body) (w.submit task t)
  | notified (now : UInt64) (outcomes : Nat → SendOutcome) (w' : World)
      (notification : Notification w now outcomes w') : Moved w (.notified now outcomes) w'
  | datagram (timestamp : UInt64) (seq index : UInt16) (now : UInt64) (w' : World)
      (reception : Reception w timestamp index now (.ok ((), w'))) :
      Moved w (.datagram timestamp seq index now) w'
  | expired (task : TaskPtr) (i : Nat) (w' : World)
      (armed : (w.worker.base (task, i)).isSome = true)
      (fired : w.fire task i = .ok ((), w')) : Moved w (.expired task i) w'
  | deleted (task : TaskPtr) (member : task ∈ w.master.responseQueue) :
      Moved w (.deleted task) (w.delete task)

section moves
variable {w w' : World} {l : WorkerMove}

theorem World.of_map {m : Except Fault (Unit × World)} (run : m.map Prod.snd = .ok w') :
    m = .ok ((), w') := by
  cases m with
  | error fault => cases run
  | ok result =>
      cases run
      rfl

theorem WorkerInv.moved (inv : WorkerInv none w) (offered : l.enabled w)
    (served : l.serve w = .ok w') : w.Moved l w' := by
  cases l with
  | request task raw fuel body =>
      cases accepted : Task.accepted task raw fuel body with
      | none =>
          rw [WorkerMove.serve, accepted] at served
          cases served
      | some t =>
          rw [WorkerMove.serve, accepted] at served
          cases served
          exact .request task raw fuel body t offered.1 accepted
  | notified now outcomes =>
      obtain ⟨w₁, run, notification⟩ := notifyEventHandler_notification now outcomes inv offered
      have same := (World.of_map served).symm.trans run
      cases same
      exact .notified now outcomes _ notification
  | datagram timestamp seq index now =>
      have reception := onReceive_reception inv timestamp seq index now
      rw [World.of_map served] at reception
      exact .datagram timestamp seq index now w' reception
  | expired task i => exact .expired task i w' offered (World.of_map served)
  | deleted task =>
      cases served
      exact .deleted task offered

/-- The handlers of the event loop keep the invariant and the custody of tasks. -/
theorem World.Moved.advances (moved : w.Moved l w') (inv : WorkerInv none w) (loop : l.InLoop) :
    w.Advances w' := by
  cases moved with
  | request | deleted => exact loop.elim
  | notified now outcomes w' notification => exact notification.advances inv
  | datagram timestamp seq index now w' reception => exact (reception.advances inv).1
  | expired task i w' armed fired => exact (fire_advances inv armed fired).1

theorem World.Moved.trace_suffix (moved : w.Moved l w') (inv : WorkerInv none w) :
    w.trace <:+ w'.trace := by
  cases moved with
  | request task raw fuel body t => exact List.suffix_cons ..
  | deleted task => exact List.suffix_rfl
  | notified now outcomes w' notification => exact (notification.advances inv).acts.trace
  | datagram timestamp seq index now w' reception => exact (reception.advances inv).1.acts.trace
  | expired task i w' armed fired => exact (fire_advances inv armed fired).1.acts.trace

/-- An enabled move runs through, provided a reply is in range. -/
theorem WorkerInv.progress (inv : WorkerInv none w) (offered : l.enabled w)
    (inRange : l.InRange w) : ∃ w', l.serve w = .ok w' := by
  cases l with
  | request task raw fuel body =>
      obtain ⟨t, accepted⟩ := Option.isSome_iff_exists.mp offered.2
      exact ⟨w.submit task t, by rw [WorkerMove.serve, accepted]; rfl⟩
  | notified now outcomes =>
      obtain ⟨w', run, _⟩ := notifyEventHandler_notification now outcomes inv offered
      exact ⟨w', by rw [WorkerMove.serve, run]; rfl⟩
  | datagram timestamp seq index now =>
      have reception := onReceive_reception inv timestamp seq index now
      rw [WorkerMove.serve]
      cases result : onReceive timestamp seq index now w with
      | ok outcome => exact ⟨outcome.2, rfl⟩
      | error fault =>
          rw [result] at reception
          cases reception with
          | outOfRange task t found held live atEnd =>
              have below := inRange t (by rw [World.found, found]; exact live)
              omega
  | expired task i =>
      obtain ⟨held, t, p, live, entry, waiting⟩ := inv.waiting_of_armed offered
      exact ⟨_, by rw [WorkerMove.serve, fire_eq inv offered live entry]; rfl⟩
  | deleted task => exact ⟨w.delete task, rfl⟩

end moves

/-! ## The invariant of a run -/

namespace World

structure RunInv (w : World) : Prop where
  worker : WorkerInv none w
  custody : ∀ a, w.holdings a = (w.heap a).isSome.toNat
  responses : ∀ a ∈ w.master.responseQueue, w.Returned a

/-- Where a live Task is, and what it looks like there. -/
inductive Stage (w : World) (a : TaskPtr) (t : Task) : Prop
  | queued (member : a ∈ w.worker.taskQueue) (log : taskLog a w.trace = [])
      (fresh : t.Fresh a) (unstarted : w.Unstarted a) (enqueued : origin a w.trace = some t)
  | doing (held : a ∈ doingTasks w.trace) (log : taskLog a w.trace = [.admitted])
      (serving : w.Serving a t) (underway : t.Underway)
  | refused (member : a ∈ w.master.responseQueue) (t₀ : Task) (timers : Nat → Option Int32)
      (log : taskLog a w.trace = [.sendToMaster (some t) timers])
      (fresh : t₀.Fresh a) (marked : t = { t₀ with prepareError := true, preErrorCode := 1005 })
      (unstarted : w.Unstarted a) (enqueued : origin a w.trace = some t₀)
  | returned (member : a ∈ w.master.responseQueue) (timers : Nat → Option Int32)
      (log : taskLog a w.trace = [.sendToMaster (some t) timers, .complete, .admitted])
      (serving : w.Serving a t) (all : t.doneCount = t.totalCount) (some : 0 < t.totalCount)

namespace RunInv
variable {w w' : World} {a : TaskPtr} {t : Task}

theorem of_boots (boots : w.Boots) : w.RunInv := by
  obtain ⟨heap, trace, responses, queue, pipe, count, routes, timers⟩ := boots
  refine ⟨⟨?_, ?_, ?_, ?_, ?_, ?_, ?_, ?_⟩, ?_, ?_⟩
  · simp [queue]
  · simp [queue]
  · intro b
    rw [trace]
    refine .idle (by rw [trace]; exact Finset.notMem_empty b) fun i => ⟨?_, timers (b, i)⟩
    rw [trace]
    rfl
  · intro ts b route
    rw [routes ts] at route
    cases route
  · rw [count, trace]
    rfl
  · rw [count]
    decide
  · rw [pipe, queue]
    rfl
  · simp [trace]
  · intro b
    simp [holdings, heap, trace, responses, queue, doingTasks]
  · simp [responses]

theorem advances (inv : w.RunInv) (next : w.Advances w') : w'.RunInv where
  worker := next.inv
  custody b := by
    rw [next.acts.custody b, next.acts.live b]
    exact inv.custody b
  responses b member := by
    cases next.acts.responses b member with
    | inl earlier => exact (inv.responses b earlier).acts next.acts
    | inr returned => exact returned

theorem submit (inv : w.RunInv) (free : w.heap a = none) (fresh : t.Fresh a) :
    (w.submit a t).RunInv where
  worker := inv.worker.submit free fresh
  custody b := by
    have before := inv.custody b
    by_cases same : b = a
    · subst same
      have live : (w.submit b t).heap b = some t := Function.update_self ..
      have queue : (w.submit b t).worker.taskQueue.count b = w.worker.taskQueue.count b + 1 :=
        List.count_cons_self ..
      rw [free] at before
      rw [live]
      simp only [holdings, queue, Option.isSome_none, Option.isSome_some] at before ⊢
      change _ + (if b ∈ doingTasks w.trace then 1 else 0) + w.master.responseQueue.count b = 1
      change _ = 0 at before
      omega
    · have live : (w.submit a t).heap b = w.heap b := Function.update_of_ne same ..
      have queue : (w.submit a t).worker.taskQueue.count b = w.worker.taskQueue.count b :=
        List.count_cons_of_ne (Ne.symm same) ..
      rw [live, ← before]
      simp only [holdings, queue]
      rfl
  responses b member := by
    have returned := inv.responses b member
    obtain ⟨s, timers, rest, live, log⟩ := returned.frozen
    have other : b ≠ a := by
      intro same
      subst same
      rw [free] at live
      cases live
    refine ⟨?_, s, timers, rest, (Function.update_of_ne other ..).trans live,
      (if_neg fun eq => other eq.symm).trans log⟩
    rintro (queued | doing)
    · exact returned.free (.inl ((List.mem_cons.mp queued).resolve_left other))
    · exact returned.free (.inr doing)

/-- A response is in the queue once and nowhere else. -/
theorem response_once (inv : w.RunInv) (member : a ∈ w.master.responseQueue) :
    w.holdings a = 1 ∧ w.master.responseQueue.count a = 1 := by
  have present := List.count_pos_iff.mpr member
  obtain ⟨t, _, _, live, _⟩ := (inv.responses a member).frozen
  have once := inv.custody a
  rw [live] at once
  simp only [holdings, Option.isSome_some, Bool.toNat_true] at once ⊢
  omega

theorem delete (inv : w.RunInv) (member : a ∈ w.master.responseQueue) : (w.delete a).RunInv where
  worker := by
    refine inv.worker.heap_congr fun b holds => Function.update_of_ne ?_ _ _
    intro same
    subst same
    exact (inv.responses b member).free holds
  custody b := by
    by_cases same : b = a
    · subst same
      obtain ⟨once, only⟩ := inv.response_once member
      have live : (w.delete b).heap b = none := Function.update_self ..
      have queue : (w.delete b).master.responseQueue.count b =
          w.master.responseQueue.count b - 1 := List.count_erase_self
      rw [live]
      simp only [holdings, queue] at once ⊢
      change w.worker.taskQueue.count b + (if b ∈ doingTasks w.trace then 1 else 0) + _ = 0
      omega
    · have live : (w.delete a).heap b = w.heap b := Function.update_of_ne same ..
      have queue : (w.delete a).master.responseQueue.count b = w.master.responseQueue.count b :=
        List.count_erase_of_ne same
      rw [live, ← inv.custody b]
      simp only [holdings, queue]
      rfl
  responses b still := by
    have earlier := List.mem_of_mem_erase still
    have returned := inv.responses b earlier
    obtain ⟨s, timers, rest, live, log⟩ := returned.frozen
    have other : b ≠ a := by
      intro same
      subst same
      have twice : 0 < (w.master.responseQueue.erase b).count b := List.count_pos_iff.mpr still
      rw [List.count_erase_self, (inv.response_once earlier).2] at twice
      omega
    exact ⟨returned.free, s, timers, rest, (Function.update_of_ne other ..).trans live, log⟩

theorem step {l : WorkerMove} (inv : w.RunInv) (offered : l.enabled w)
    (served : l.serve w = .ok w') : w'.RunInv := by
  have moved := inv.worker.moved offered served
  by_cases loop : l.InLoop
  · exact inv.advances (moved.advances inv.worker loop)
  cases moved with
  | request task raw fuel body t free accepted =>
      exact inv.submit free (Task.accepted_fresh accepted)
  | deleted task member => exact inv.delete member
  | notified | datagram | expired => exact absurd trivial loop

theorem of_reachable {allowed : World → WorkerMove → Prop}
    (reached : workerSystem.Reachable allowed w) : w.RunInv :=
  reached.invariant (fun _ => of_boots) fun _ _ _ inv offered _ served => inv.step offered served

theorem of_live (inv : w.RunInv) (live : w.heap a = some t) : w.Stage a t := by
  have once := inv.custody a
  rw [live] at once
  simp only [holdings, Option.isSome_some, Bool.toNat_true] at once
  by_cases queued : a ∈ w.worker.taskQueue
  · obtain ⟨log, s, live', fresh, enqueued⟩ := inv.worker.queued a queued
    rw [live, Option.some.injEq] at live'
    subst live'
    exact .queued queued log fresh (log ▸ inv.worker.task a).of_nil.2 enqueued
  by_cases held : a ∈ doingTasks w.trace
  · have serving := inv.worker.serving held live
    have underway := inv.worker.underway held live
    have log := (inv.worker.of_doing held).1
    exact .doing held log serving underway
  have notQueued := List.count_eq_zero.mpr queued
  rw [if_neg held] at once
  have member : a ∈ w.master.responseQueue := List.count_pos_iff.mp (by omega)
  obtain ⟨s, timers, rest, live', log⟩ := (inv.responses a member).frozen
  rw [live, Option.some.injEq] at live'
  subst live'
  have life := inv.worker.task a
  rw [log] at life
  cases life with
  | refused t₀ timers gone unstarted fresh enqueued unarmed =>
      exact .refused member t₀ timers log fresh rfl unstarted enqueued
  | returned t timers gone serving all some disarmed unarmed =>
      exact .returned member timers log serving all some

end RunInv

theorem Stage.total {w : World} {a : TaskPtr} {t : Task} (stage : w.Stage a t) :
    t.totalCount = t.pings.length := by
  cases stage with
  | queued _ _ fresh => exact fresh.total
  | doing _ _ serving | returned _ _ _ serving => exact serving.total
  | refused _ t₀ _ _ fresh marked =>
      subst marked
      exact fresh.total

/-- A live Task has the servers it was enqueued with. -/
theorem Stage.source {w : World} {a : TaskPtr} {t : Task} (stage : w.Stage a t) :
    ∃ t₀, origin a w.trace = some t₀ ∧ t₀.pings.map Ping.ip = t.pings.map Ping.ip := by
  cases stage with
  | queued _ _ _ _ enqueued => exact ⟨t, enqueued, rfl⟩
  | doing _ _ serving | returned _ _ _ serving => exact serving.source
  | refused _ t₀ _ _ _ marked _ enqueued => exact ⟨t₀, enqueued, marked ▸ rfl⟩

/-! ## Along a run -/

section along
variable {w w' : World} {a : TaskPtr} {allowed : World → WorkerMove → Prop}

/-- Along a run the trace grows. -/
theorem trace_grows (reached : workerSystem.Reachable allowed w)
    (run : workerSystem.Runs allowed w w') : w.trace <:+ w'.trace := by
  induction run with
  | refl => exact List.suffix_rfl
  | step l before offered ok served ih =>
      have inv := RunInv.of_reachable (reached.extend before)
      exact ih.trans ((inv.worker.moved offered served).trace_suffix inv.worker)

theorem runInv_after (reached : workerSystem.Reachable allowed w)
    (run : workerSystem.Runs allowed w w') : w'.RunInv :=
  RunInv.of_reachable (reached.extend run)

end along
end World

/-! ## A concrete worker

Used where a statement is tried on a computed run. -/
namespace Sample

def boot : World where
  heap _ := none
  worker := {
    self := 1, pid := 4242, threadId := 0, doingMap := fun _ => none, taskQueue := [],
    doingCount := 0, notifyPipe := 0, base := fun _ => none }
  master := { responseQueue := [], notifyPipe := 0 }
  trace := []

theorem boots : boot.Boots :=
  ⟨fun _ => rfl, rfl, rfl, rfl, rfl, rfl, fun _ => rfl, fun _ => rfl⟩

/-- Every request goes out, at this time. -/
def sends (sendtime : UInt64) (_ : Nat) : SendOutcome := ⟨true, sendtime, true⟩

/-- No address converts. -/
def fails (_ : Nat) : SendOutcome := ⟨false, 0, false⟩

/-- A request for two servers at address 7 is admitted at time 50; one reply
arrives at time 90. -/
def moves : List WorkerMove :=
  [.request 7 raw 3 (body ["192.0.2.1", "192.0.2.2"]), .notified 50 (sends 60),
    .datagram 50 0 1 90]

def waiting : World := (workerSystem.follow WorkerMove.InRange boot moves).get rfl

theorem waiting_reachable : workerSystem.Reachable WorkerMove.InRange waiting :=
  Machine.reachable_of_follow boots moves rfl

end Sample
end AsyncPing
