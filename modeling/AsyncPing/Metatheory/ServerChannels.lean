import AsyncPing.Library.Contract
import AsyncPing.Metatheory.ServerRuns
import AsyncPing.Metatheory.WorkerChannel

/-!
The three channels in use: the task queue of each worker, the response queue of the server and
the queue of the logger. Each of their functions pushes and writes or reads and pops, so no
run of theirs loses a wake-up.
-/
namespace AsyncPing
open Exec HttpServer

/-! ## The response queue -/

/-- Workers only submit to it. -/
theorem responses_lasting : Lasting fun w => w.master.channel.Used where
  log used _ := used
  setTask used _ _ := used
  setWorker used _ _ := used
  enqueueResponse {w} used task := by
    rw [Master.channel_enqueueResponse]
    exact used.submit task

section handler
variable {W : Nat} {s s' : Server W} {c : Channel TaskPtr}

theorem readTask_channel (task : TaskPtr) (before : s.master.channel = c) :
    Meets (fun _ => True) (HttpServer.readTask task) s fun _ s' => s'.master.channel = c := by
  rw [HttpServer.readTask, meets_get_bind]
  split
  · trivial
  · exact before

theorem deleteTask_channel (task : TaskPtr) (before : s.master.channel = c) :
    Meets (fun _ => True) (deleteTask task) s fun _ s' => s'.master.channel = c :=
  (readTask_channel task before).bind fun _ _ same => same

theorem fillHttpResponse_channel (filled : Except Fault HttpResponse)
    (before : s.master.channel = c) :
    Meets (fun _ => True) (liftM filled : ServerHandler W HttpResponse) s
      fun _ s' => s'.master.channel = c := by
  cases filled with
  | error fault => trivial
  | ok response => exact before

/-- One byte is read and one response popped, whatever becomes of it. -/
theorem tryRespEventHandler_meets :
    Meets (fun _ => True) tryRespEventHandler s fun _ s' =>
      s'.master.channel = s.master.channel.readByte.popTail.2 := by
  rw [tryRespEventHandler, meets_modify_bind, meets_get_bind]
  simp only [Master.channel, Channel.readByte, Channel.popTail]
  cases popped : Sequence.popTail s.master.responseQueue with
  | none => rfl
  | some result =>
      obtain ⟨task, rest⟩ := result
      rw [meets_modify_bind]
      dsimp only
      split
      · rw [HttpServer.record, meets_modify_bind]
        exact deleteTask_channel task rfl
      · rw [meets_modify_bind]
        refine (readTask_channel task rfl).bind fun t s' same => ?_
        refine (fillHttpResponse_channel _ same).bind fun response s' same => ?_
        rw [HttpServer.record, meets_modify_bind]
        exact deleteTask_channel task same

theorem tryRespEventHandler_channel (run : (tryRespEventHandler s).map Prod.snd = .ok s') :
    s'.master.channel = s.master.channel.readByte.popTail.2 := by
  have meets := tryRespEventHandler_meets (s := s)
  cases result : tryRespEventHandler s with
  | error fault =>
      rw [result] at run
      cases run
  | ok outcome =>
      rw [result] at run
      cases run
      rwa [Meets, result] at meets

end handler

/-! ## The server -/

section server
variable {W : Nat} {parse : List UInt8 → Option Value} {s s' : Server W} {l : ServerMove W}

/-- Nobody is between two steps on one of the server's channels. -/
structure Server.Used (s : Server W) : Prop where
  workers : ∀ i, (s.workers i).channel.Used
  master : s.master.channel.Used

/-- A handler of a worker takes from its own queue and submits responses. -/
theorem Server.Used.resume {i : Fin W} {move : WorkerMove} {w' : World} (used : s.Used)
    (loop : move.InLoop) (offered : move.enabled (s.focus i))
    (served : move.serve (s.focus i) = .ok w') : (s.resume i w').Used where
  workers j := by
    by_cases same : j = i
    · subst same
      change (Function.update s.workers j w'.worker j).channel.Used
      rw [Function.update_self]
      exact WorkerMove.serve_used offered served (used.workers j)
    · change (Function.update s.workers i w'.worker j).channel.Used
      rw [Function.update_of_ne same]
      exact used.workers j
  master := responses_lasting.serve (fun _ _ => used.master) loop used.master served

theorem ServerMove.serve_used (inv : ServerInv s) (workers : 0 < W) (offered : l.enabled parse s)
    (served : l.serve parse s = .ok s') (used : s.Used) : s'.Used := by
  cases l with
  | worker i move =>
      obtain ⟨w', run, rfl⟩ := resume_of_serve served
      exact used.resume offered.1 offered.2 run
  | respond =>
      obtain ⟨s₁, run, moved⟩ := inv.responds offered
      cases served.symm.trans run
      refine ⟨?_, ?_⟩
      · cases moved with
        | answered => exact used.workers
      · rw [tryRespEventHandler_channel served]
        exact used.master.take offered
  | request req site rand =>
      obtain ⟨s₁, run, moved⟩ := inv.handles_request workers offered
      cases served.symm.trans run
      cases moved with
      | rejected => exact ⟨used.workers, used.master.submit _⟩
      | passedOn _ _ _ t i =>
          refine ⟨fun j => ?_, used.master⟩
          change (Function.update s.workers i _ j).channel.Used
          by_cases same : j = i
          · subst same
            rw [Function.update_self, TaskWorker.channel_submit]
            exact (used.workers j).submit site.task
          · rw [Function.update_of_ne same]
            exact used.workers j

theorem server_uses_channels {allowed : Server W → ServerMove W → Prop} (workers : 0 < W)
    (reached : (serverSystem parse W).Reachable allowed s) : s.Used := by
  have both : ServerInv s ∧ s.Used := by
    apply reached.invariant (I := fun s => ServerInv s ∧ s.Used)
    · intro s₀ boots
      refine ⟨.of_boots boots, ?_⟩
      obtain ⟨-, started, master, -⟩ := boots
      refine ⟨fun i => ?_, ?_⟩
      · obtain ⟨-, -, -, queue, pipe, -⟩ := started i
        change (s₀.workers i).taskQueue = [] at queue
        change (s₀.workers i).notifyPipe = 0 at pipe
        rw [TaskWorker.channel, queue, pipe]
        exact .empty
      · rw [Master.channel, master]
        exact .empty
    · rintro r l r' ⟨inv, used⟩ offered _ served
      exact ⟨inv.of_moved (inv.moved workers offered served),
        ServerMove.serve_used inv workers offered served used⟩
  exact both.2

end server

/-! ## The logger -/

theorem logger_uses_channel {allowed : Logger → LoggerMove → Prop} {l : Logger}
    (reached : loggerSystem.Reachable allowed l) : l.channel.Used := by
  apply reached.invariant (I := fun l => l.channel.Used)
  · intro l₀ started
    rw [Logger.channel, started.1, started.2]
    exact .empty
  · intro l move l' used offered _ served
    cases served
    cases move with
    | log level body =>
        by_cases kept : level.value ≤ l.logLevel.value
        · rw [LoggerMove.serve, l.channel_log body kept]
          exact used.submit body
        · rw [LoggerMove.serve, Logger.log, if_pos (Nat.not_le.mp kept)]
          exact used
    | notified =>
        rw [LoggerMove.serve, l.channel_logEventHandler.2]
        exact used.take offered

/-- No run of the server, with the logger beside it, loses a wake-up or gives one for nothing. -/
theorem channels_awake {W : Nat} {parse : List UInt8 → Option Value} {s : Server W} {l : Logger}
    {allowed : Server W → ServerMove W → Prop} {logs : Logger → LoggerMove → Prop}
    (workers : 0 < W) (reached : (serverSystem parse W).Reachable allowed s)
    (logged : loggerSystem.Reachable logs l) :
    (∀ i, (s.workers i).channel.Awake) ∧ s.master.channel.Awake ∧ l.channel.Awake := by
  have used := server_uses_channels workers reached
  exact ⟨fun i => (used.workers i).awake, used.master.awake, (logger_uses_channel logged).awake⟩

end AsyncPing
