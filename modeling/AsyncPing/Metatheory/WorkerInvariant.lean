import AsyncPing.Metatheory.HandlerEquations
import Mathlib.Data.Finset.Card

/-!
The invariant of a TaskWorker between two handlers. Every address is in one
stage of its life: not yet admitted, admitted, refused at capacity, or handed
back. The stage is read off the trace, and each ping of an admitted task agrees
with its own history: status, stored times, event base and counter. While
doTask is at work on a task, `running` names it and exempts it from the rule
that an admitted task is under way.
-/
namespace AsyncPing
open TaskWorker

/-- As the Task constructor leaves an accepted request. -/
structure Task.Fresh (task : TaskPtr) (t : Task) : Prop where
  noError : t.prepareError = false
  noCode : t.preErrorCode = 0
  total : t.totalCount = t.pings.length
  uncounted : t.doneCount = 0
  entry : ∀ (i : Nat) (p : Ping), t.pings[i]? = some p →
    p.index.toNat = i ∧ p.status = .uninited ∧ p.parentTask = some task

/-- A ping agrees with its history and its timer. -/
inductive Ping.Agrees (self : Nat) (event : EventPtr) (request : EchoRequest)
    (clock : List UInt64) (p : Ping) : List PingEvent → Option Int32 → Prop
  | uninited (status : p.status = .uninited) : Agrees self event request clock p [] none
  | sendError (status : p.status = .sendError) :
      Agrees self event request clock p [.sendError, .start] none
  | doing (sendtime : UInt64) (status : p.status = .doing) (worker : p.worker = some self)
      (timer : p.timeoutEvent = some event) (sent : p.sendtime = sendtime.toInt64)
      (read : sendtime ∈ clock) :
      Agrees self event request clock p [.send request sendtime, .start] (some p.timeout)
  | success (sendtime recvtime : UInt64) (status : p.status = .success)
      (sent : p.sendtime = sendtime.toInt64) (received : p.recvtime = recvtime.toInt64)
      (read : sendtime ∈ clock ∧ recvtime ∈ clock)
      (ordered : clock.Pairwise (· ≥ ·) → sendtime ≤ recvtime) :
      Agrees self event request clock p [.success recvtime, .send request sendtime, .start] none
  | timeout (sendtime : UInt64) (status : p.status = .timeout) :
      Agrees self event request clock p [.timeout, .send request sendtime, .start] none

structure World.Served (w : World) (task : TaskPtr) (t : Task) (i : Nat) (p : Ping) : Prop where
  index : p.index.toNat = i
  parent : p.parentTask = some task
  agrees : p.Agrees w.worker.self (task, i) (w.worker.requestFor t p.index) (readings w.trace)
    (pingLog task i w.trace) (w.worker.base (task, i))

/-- The task is an accepted request whose pings all agree with their histories,
and whose counter counts the terminal ones. -/
structure World.Serving (w : World) (task : TaskPtr) (t : Task) : Prop where
  noError : t.prepareError = false
  noCode : t.preErrorCode = 0
  total : t.totalCount = t.pings.length
  counted : t.doneCount = t.pings.countP (·.status.terminal)
  entry : ∀ (i : Nat) (p : Ping), t.pings[i]? = some p → w.Served task t i p
  outside : ∀ i, t.pings.length ≤ i →
    pingLog task i w.trace = [] ∧ w.worker.base (task, i) = none
  source : ∃ t₀, origin task w.trace = some t₀ ∧ t₀.pings.map Ping.ip = t.pings.map Ping.ip

/-- Every ping was started, and unless there are none one is still waiting. -/
structure Task.Underway (t : Task) : Prop where
  started : ∀ p ∈ t.pings, p.status ≠ .uninited
  waiting : t.pings ≠ [] → t.doneCount < t.totalCount

/-- None of its pings was ever started. -/
def World.Unstarted (w : World) (task : TaskPtr) : Prop :=
  ∀ i, pingLog task i w.trace = [] ∧ w.worker.base (task, i) = none

inductive Lifecycle (running : Option TaskPtr) (w : World) (task : TaskPtr) :
    List TaskEvent → Prop
  | idle (gone : task ∉ doingTasks w.trace) (unstarted : w.Unstarted task) :
      Lifecycle running w task []
  | doing (t : Task) (held : task ∈ doingTasks w.trace) (live : w.heap task = some t)
      (serving : w.Serving task t) (underway : running ≠ some task → t.Underway) :
      Lifecycle running w task [.admitted]
  | refused (t : Task) (timers : Nat → Option Int32) (gone : task ∉ doingTasks w.trace)
      (unstarted : w.Unstarted task) (fresh : t.Fresh task)
      (enqueued : origin task w.trace = some t) (unarmed : ∀ i, timers i = none) :
      Lifecycle running w task
        [.sendToMaster (some { t with prepareError := true, preErrorCode := 1005 }) timers]
  | returned (t : Task) (timers : Nat → Option Int32) (gone : task ∉ doingTasks w.trace)
      (serving : w.Serving task t) (all : t.doneCount = t.totalCount) (some : 0 < t.totalCount)
      (disarmed : ∀ i, w.worker.base (task, i) = none) (unarmed : ∀ i, timers i = none) :
      Lifecycle running w task [.sendToMaster (.some t) timers, .complete, .admitted]

structure WorkerInv (running : Option TaskPtr) (w : World) : Prop where
  queued : ∀ a ∈ w.worker.taskQueue, taskLog a w.trace = [] ∧
    ∃ t, w.heap a = some t ∧ t.Fresh a ∧ origin a w.trace = some t
  distinct : w.worker.taskQueue.Nodup
  task : ∀ a, Lifecycle running w a (taskLog a w.trace)
  routed : ∀ ts a, w.worker.doingMap ts = some a →
    a ∈ doingTasks w.trace ∧ ∃ t, w.heap a = some t ∧ t.timestamp = ts
  count : w.worker.doingCount = (doingTasks w.trace).card
  capacity : w.worker.doingCount ≤ DOING_TASK_CAPACITY
  pipe : w.worker.notifyPipe = w.worker.taskQueue.length
  audit : ∀ e ∈ w.trace, e.Disciplined

/-! ## Reading the invariant -/

namespace Ping.Agrees
variable {self : Nat} {event : EventPtr} {request : EchoRequest} {clock clock' : List UInt64}
  {p : Ping} {log : List PingEvent} {timer : Option Int32}

theorem later (agrees : p.Agrees self event request clock log timer) (grown : clock <:+ clock') :
    p.Agrees self event request clock' log timer := by
  cases agrees with
  | uninited status => exact .uninited status
  | sendError status => exact .sendError status
  | doing sendtime status worker timer sent read =>
      exact .doing sendtime status worker timer sent (grown.subset read)
  | success sendtime recvtime status sent received read ordered =>
      refine .success sendtime recvtime status sent received
        ⟨grown.subset read.1, grown.subset read.2⟩ ?_
      intro sorted
      exact ordered (sorted.sublist grown.sublist)
  | timeout sendtime status => exact .timeout sendtime status

theorem armed_iff (agrees : p.Agrees self event request clock log timer) :
    timer.isSome = true ↔ p.status = .doing := by
  cases agrees <;> simp [*]

theorem unarmed (agrees : p.Agrees self event request clock log timer)
    (idle : p.status ≠ .doing) : timer = none := by
  have quiet := mt agrees.armed_iff.mp idle
  simpa using quiet

/-- The history of a waiting ping. -/
theorem of_doing (agrees : p.Agrees self event request clock log timer)
    (waiting : p.status = .doing) :
    ∃ sendtime, log = [.send request sendtime, .start] ∧ timer = some p.timeout ∧
      p.worker = some self ∧ p.timeoutEvent = some event ∧ p.sendtime = sendtime.toInt64 ∧
      sendtime ∈ clock := by
  cases agrees with
  | doing sendtime _ worker timer sent read =>
      exact ⟨sendtime, rfl, rfl, worker, timer, sent, read⟩
  | uninited status | sendError status | success _ _ status | timeout _ status =>
      rw [status] at waiting
      cases waiting

theorem of_uninited (agrees : p.Agrees self event request clock log timer)
    (fresh : p.status = .uninited) : log = [] ∧ timer = none := by
  cases agrees with
  | uninited => exact ⟨rfl, rfl⟩
  | sendError status | doing _ status | success _ _ status | timeout _ status =>
      rw [status] at fresh
      cases fresh

theorem of_nil (agrees : p.Agrees self event request clock [] timer) :
    p.status = .uninited := by
  cases agrees with
  | uninited status => exact status

end Ping.Agrees

namespace Lifecycle
variable {running : Option TaskPtr} {w : World} {task : TaskPtr} {es : List TaskEvent}

theorem of_doing (life : Lifecycle running w task es) (held : task ∈ doingTasks w.trace) :
    es = [.admitted] ∧ ∃ t, w.heap task = some t ∧ w.Serving task t ∧
      (running ≠ some task → t.Underway) := by
  cases life with
  | doing t _ live serving underway => exact ⟨rfl, t, live, serving, underway⟩
  | idle gone | refused _ _ gone | returned _ _ gone => exact (gone held).elim

/-- Only an admitted task has armed timers. -/
theorem disarmed (life : Lifecycle running w task es) (gone : task ∉ doingTasks w.trace)
    (i : Nat) : w.worker.base (task, i) = none := by
  cases life with
  | idle _ unstarted | refused _ _ _ unstarted => exact (unstarted i).2
  | doing _ held => exact (gone held).elim
  | returned _ _ _ _ _ _ disarmed => exact disarmed i

theorem of_nil (life : Lifecycle running w task []) :
    task ∉ doingTasks w.trace ∧ w.Unstarted task := by
  cases life with
  | idle gone unstarted => exact ⟨gone, unstarted⟩

end Lifecycle

namespace WorkerInv
variable {running : Option TaskPtr} {w : World} {task : TaskPtr} {t : Task}

theorem of_doing (inv : WorkerInv none w) (held : task ∈ doingTasks w.trace) :
    taskLog task w.trace = [.admitted] ∧
      ∃ t, w.heap task = some t ∧ w.Serving task t ∧ t.Underway := by
  obtain ⟨log, t, live, serving, underway⟩ := (inv.task task).of_doing held
  exact ⟨log, t, live, serving, underway nofun⟩

theorem serving (inv : WorkerInv running w) (held : task ∈ doingTasks w.trace)
    (live : w.heap task = some t) : w.Serving task t := by
  obtain ⟨_, s, live', serving, _⟩ := (inv.task task).of_doing held
  rw [live, Option.some.injEq] at live'
  exact live' ▸ serving

theorem underway (inv : WorkerInv none w) (held : task ∈ doingTasks w.trace)
    (live : w.heap task = some t) : t.Underway := by
  obtain ⟨_, s, live', _, underway⟩ := inv.of_doing held
  rw [live, Option.some.injEq] at live'
  exact live' ▸ underway

theorem of_armed (inv : WorkerInv none w) {i : Nat}
    (armed : (w.worker.base (task, i)).isSome = true) :
    task ∈ doingTasks w.trace := by
  by_contra gone
  rw [(inv.task task).disarmed gone i] at armed
  cases armed

theorem not_queued (inv : WorkerInv running w) (held : task ∈ doingTasks w.trace) :
    task ∉ w.worker.taskQueue := by
  intro queued
  have log := ((inv.task task).of_doing held).1
  rw [(inv.queued task queued).1] at log
  cases log

theorem audit_append (inv : WorkerInv running w) (evs : List Event)
    (here : ∀ e ∈ evs, e.Disciplined) : ∀ e ∈ evs ++ w.trace, e.Disciplined :=
  List.forall_mem_append.mpr ⟨here, inv.audit⟩

end WorkerInv
end AsyncPing
