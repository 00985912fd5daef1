import AsyncPing.Metatheory.HandlerWalk
import AsyncPing.Metatheory.WakeUps
import AsyncPing.Metatheory.WorkerRuns

/-!
A TaskWorker on its channel. Nothing but notifyEventHandler touches the queue and
the pipe from within the worker, and it reads one byte and pops once. So the runs
of the worker, one handler a move, are among the runs of the channel, and what
holds of every interleaving there holds here.
-/
namespace AsyncPing
open TaskWorker Exec

def taskChannel (w : World) : Channel TaskPtr := w.worker.channel

theorem taskChannel_lasting (c : Channel TaskPtr) : Lasting fun w => taskChannel w = c where
  log same _ := same
  setTask same _ _ := same
  setWorker before _ same := (same _).trans before
  enqueueResponse same _ := same

/-- A byte is read and a value popped, whatever else the handler does. -/
theorem notifyEventHandler_channel {now : UInt64} {outcomes : Nat → SendOutcome} {w w' : World}
    (run : (notifyEventHandler now outcomes w).map Prod.snd = .ok w') :
    taskChannel w' = (taskChannel w).readByte.popTail.2 := by
  have kept := (taskChannel_lasting (taskChannel w).readByte.popTail.2).undisturbed
  refine Lasting.of_run (notifyEventHandler_keeps kept rfl ?_ ?_ now outcomes) run
  · intro nothing
    refine ⟨rfl, ?_⟩
    simp only [taskChannel, TaskWorker.channel, Channel.readByte, Channel.popTail, nothing]
  · intro task rest popped
    refine ⟨trivial, rfl, ?_⟩
    simp only [taskChannel, TaskWorker.channel, Channel.readByte, Channel.popTail, popped]

section user
variable {w w' : World} {l : WorkerMove}

/-- A move of the worker is made of steps on its channel: a push and a write, a
read and a pop, or none. -/
theorem WorkerMove.serve_used (offered : l.enabled w) (served : l.serve w = .ok w')
    (used : (taskChannel w).Used) : (taskChannel w').Used := by
  have kept := (taskChannel_lasting (taskChannel w)).undisturbed
  cases l with
  | request task raw fuel body =>
      cases accepted : Task.accepted task raw fuel body with
      | none =>
          rw [WorkerMove.serve, accepted] at served
          cases served
      | some t =>
          rw [WorkerMove.serve, accepted] at served
          cases served
          rw [taskChannel, World.submit, TaskWorker.channel_submit]
          exact used.submit task
  | notified now outcomes =>
      rw [notifyEventHandler_channel served]
      exact used.take offered
  | datagram timestamp seq index now =>
      have same := Lasting.of_run (onReceive_keeps kept ⟨rfl, rfl⟩ timestamp seq index now) served
      exact same ▸ used
  | expired task i =>
      have same := Lasting.of_run (fire_keeps kept ⟨rfl, rfl⟩ trivial) served
      exact same ▸ used
  | deleted task =>
      cases served
      exact used

/-- The worker of the coarse model only ever reaches what its channel reaches
step by step. -/
theorem worker_uses_channel {allowed : World → WorkerMove → Prop}
    (reached : workerSystem.Reachable allowed w) : (taskChannel w).Used := by
  refine reached.invariant (fun w₀ boots => ?_) fun _ _ _ used offered _ served =>
    WorkerMove.serve_used offered served used
  obtain ⟨-, -, -, queue, pipe, -⟩ := boots
  rw [taskChannel, TaskWorker.channel, queue, pipe]
  exact .empty

theorem worker_channel_awake {allowed : World → WorkerMove → Prop}
    (reached : workerSystem.Reachable allowed w) : (taskChannel w).Awake :=
  (worker_uses_channel reached).awake

end user
end AsyncPing
