import AsyncPing.Metatheory.WorkerRuns

/-!
Accesses after a hand-over. Once a task is in the response queue the HTTP thread
may delete it, so the worker must not touch it again. The one place where it
does is the loop of doTask: when no request of a task goes out, the last ping
hands the task back from inside the loop, whose condition then reads it. A run
is free of such accesses exactly when no admission is of this kind.
-/
namespace AsyncPing
open TaskWorker

/-- Of a task that is admitted with pings, some request goes out. -/
def WorkerMove.SomeSent (w : World) : WorkerMove → Prop
  | notified _ outcomes => ∀ a rest t, Sequence.popTail w.worker.taskQueue = some (a, rest) →
      w.worker.doingCount < DOING_TASK_CAPACITY → w.heap a = some t → 0 < t.totalCount →
      ∃ i : Nat, (i : Int) < t.totalCount ∧ (outcomes i).goesOut = true
  | request _ _ _ _ | datagram _ _ _ _ | expired _ _ | deleted _ => True

section steps
variable {w w' : World} {now : UInt64} {outcomes : Nat → SendOutcome}

theorem NoAccessAfterHandOver.of_suffix {old new : List Event} (grown : old <:+ new)
    (safe : NoAccessAfterHandOver new) : NoAccessAfterHandOver old := by
  obtain ⟨evs, rfl⟩ := grown
  induction evs with
  | nil => exact safe
  | cons e evs ih => exact ih safe.2

theorem noAccess_refuse {task : TaskPtr} {t : Task} {rest : List TaskPtr}
    (log : taskLog task w.trace = []) (safe : NoAccessAfterHandOver w.trace) :
    NoAccessAfterHandOver (w.refuse task rest t).trace := by
  refine ⟨fun a touched => touched.elim, ?_, safe⟩
  rintro a same ⟨e, member, _⟩
  subst same
  rw [log] at member
  cases member

theorem noAccess_accept {task : TaskPtr} {t : Task} {rest : List TaskPtr}
    (log : taskLog task w.trace = []) (safe : NoAccessAfterHandOver w.trace) :
    NoAccessAfterHandOver (w.accept task rest t now).trace := by
  refine ⟨fun a touched => touched.elim, ?_, fun a touched => touched.elim, safe⟩
  rintro a same ⟨e, member, _⟩
  subst same
  change e ∈ taskLog task w.trace at member
  rw [log] at member
  cases member

/-- The notification handler keeps clear of handed over tasks when the admitted
task, if any, sends a request. -/
theorem Notification.noAccess_iff (inv : WorkerInv none w)
    (notification : Notification w now outcomes w') (safe : NoAccessAfterHandOver w.trace) :
    NoAccessAfterHandOver w'.trace ↔ (WorkerMove.notified now outcomes).SomeSent w := by
  cases notification with
  | refused task rest t popped live fresh full =>
      obtain ⟨_, _, _, _, log, _⟩ := inv.of_popped popped
      refine iff_of_true (noAccess_refuse log safe) fun a rest' s _ room => ?_
      omega
  | admitted task rest t w' popped live fresh room dispatches =>
      obtain ⟨_, _, _, _, log, _⟩ := inv.of_popped popped
      have only : ∀ a rest' s, Sequence.popTail w.worker.taskQueue = some (a, rest') →
          w.heap a = some s → s = t := by
        intro a rest' s popped' live'
        rw [popped, Option.some.injEq, Prod.mk.injEq] at popped'
        rw [← popped'.1, live, Option.some.injEq] at live'
        exact live'.symm
      cases dispatches with
      | waiting t' advances touches held live' stamp total routes keeps sent =>
          refine iff_of_true (keeps (noAccess_accept log safe)) ?_
          intro a rest' s popped' _ live' some
          rw [only a rest' s popped' live'] at some ⊢
          exact sent some
      | failed advances touches gone routes late nonempty unsent =>
          refine iff_of_false late fun sends => ?_
          obtain ⟨i, inside, out⟩ := sends task rest t popped (by omega) live nonempty
          rw [unsent i inside] at out
          cases out

theorem World.RunInv.noAccess_iff {l : WorkerMove} (inv : w.RunInv)
    (moved : w.Moved l w') (safe : NoAccessAfterHandOver w.trace) :
    NoAccessAfterHandOver w'.trace ↔ l.SomeSent w := by
  cases moved with
  | request task raw fuel body t free accepted =>
      exact iff_of_true ⟨fun a touched => touched.elim, safe⟩ trivial
  | notified now outcomes w' notification => exact notification.noAccess_iff inv.worker safe
  | datagram timestamp seq index now w' reception =>
      exact iff_of_true ((reception.advances inv.worker).2 safe) trivial
  | expired task i w' armed fired =>
      exact iff_of_true ((fire_advances inv.worker armed fired).2 safe) trivial
  | deleted task member => exact iff_of_true safe trivial

end steps

/-- A run touches no handed over task exactly when every task it admits with
pings sends a request. -/
theorem noAccess_after_handOver_iff (s : World)
    (reached : workerSystem.Reachable WorkerMove.InRange s) :
    NoAccessAfterHandOver s.trace ↔
      workerSystem.Reachable (fun w l => l.InRange w ∧ l.SomeSent w) s := by
  refine reached.safe_iff (fun s => NoAccessAfterHandOver s.trace) WorkerMove.SomeSent
    (fun s₀ boots => ?_) fun r l r' before offered inRange served => ?_
  · rw [boots.2.1]
    trivial
  · have inv := World.RunInv.of_reachable before
    have moved := inv.worker.moved offered served
    constructor
    · intro safe
      have earlier := safe.of_suffix (moved.trace_suffix inv.worker)
      exact ⟨earlier, (inv.noAccess_iff moved earlier).mp safe⟩
    · rintro ⟨safe, sent⟩
      exact (inv.noAccess_iff moved safe).mpr sent

theorem noAccess_after_handOver_waiting :
    NoAccessAfterHandOver Sample.waiting.trace ↔
      workerSystem.Reachable (fun w l => l.InRange w ∧ l.SomeSent w) Sample.waiting :=
  noAccess_after_handOver_iff Sample.waiting Sample.waiting_reachable

namespace Sample

/-- A task of one server whose address does not convert. -/
def failingMoves : List WorkerMove :=
  [.request 7 raw 2 (body ["localhost"]), .notified 50 fails]

def failing : World := (workerSystem.follow WorkerMove.InRange boot failingMoves).get rfl

theorem failing_reachable : workerSystem.Reachable WorkerMove.InRange failing :=
  Machine.reachable_of_follow boots failingMoves rfl

end Sample

theorem access_after_handOver :
    ¬ ∀ s, workerSystem.Reachable WorkerMove.InRange s → NoAccessAfterHandOver s.trace := by
  intro safe
  have last := (safe Sample.failing Sample.failing_reachable).1 7 rfl
  exact last ⟨_, List.mem_cons_self .., rfl⟩

end AsyncPing
