import AsyncPing.Metatheory.HandlerWalk
import AsyncPing.Metatheory.ServerRuns

/-!
What a worker never changes: the servers of a Task and the Task it was sent. So what the
HTTP thread built for a request is still what is answered in the end.
-/
namespace AsyncPing
open TaskWorker Exec

/-- What is at an address is what was sent there last. -/
theorem origin_eq_find (task : TaskPtr) (trace : List Event) :
    origin task trace = ((dispatched trace).find? (·.1 = task)).map Prod.snd := by
  induction trace with
  | nil => rfl
  | cons e trace ih =>
      cases e with
      | enqueue other contents =>
          rw [origin, dispatched, List.find?_cons]
          by_cases same : other = task
          · rw [if_pos same, decide_eq_true same]
            rfl
          · rw [if_neg same, decide_eq_false same, ih]
      | accessTask | accessPing | clock | eventDel | ping | task => exact ih

/-- The servers of each Task, and the Tasks that were sent to the worker. -/
def account (w : World) : (TaskPtr → Option (List String)) × List (TaskPtr × Task) :=
  (fun a => (w.heap a).map fun t => t.pings.map Ping.ip, dispatched w.trace)

theorem account_lasting (before : (TaskPtr → Option (List String)) × List (TaskPtr × Task)) :
    Lasting fun w => account w = before where
  log same silent := same ▸ Prod.ext rfl (silent _)
  setTask {w a t t'} same live fixed := by
    have ips : t'.pings.map Ping.ip = t.pings.map Ping.ip := by
      have firsts := congrArg (List.map Prod.fst) fixed
      rwa [List.map_map, List.map_map] at firsts
    refine same ▸ Prod.ext (funext fun b => ?_) rfl
    change (Function.update w.heap a (some t') b).map _ = (w.heap b).map _
    by_cases here : b = a
    · subst here
      rw [Function.update_self, live, Option.map_some, Option.map_some, ips]
    · rw [Function.update_of_ne here]
  setWorker same _ _ := same
  enqueueResponse same _ := same

/-- No handler of the event loop changes the account. -/
theorem WorkerMove.serve_account {w w' : World} {l : WorkerMove} (loop : l.InLoop)
    (served : l.serve w = .ok w') : account w' = account w :=
  (account_lasting (account w)).serve (fun _ _ => rfl) loop rfl served

end AsyncPing
