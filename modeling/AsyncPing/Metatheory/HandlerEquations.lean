import AsyncPing.Core.WorkerSystem
import AsyncPing.Metatheory.History

/-!
What each handler computes, as an equation between worlds. A handler at work on
one ping replaces its Task, sets the timer of the ping and extends the trace;
when that closes the last ping it hands the Task back. The equations are the
only place where the bodies of the handlers are unfolded.
-/
namespace AsyncPing
open TaskWorker

/-- A ping reaches a terminal status and is counted. -/
def Task.close (t : Task) (i : Nat) (p : Ping) : Task :=
  { t.setPing i p with doneCount := t.doneCount + 1 }

/-- The request `Ping::start` sends for a ping of this Task. -/
def TaskWorker.requestFor (worker : TaskWorker) (t : Task) (index : UInt16) : EchoRequest where
  id := worker.getShortPid
  seq := 0
  threadId := worker.threadId
  timestamp := t.timestamp
  index := index

namespace World

def touchPing (w : World) (task : TaskPtr) (i : Nat) (t : Task) (timer : Option Int32)
    (evs : List Event) : World :=
  { w with
    heap := Function.update w.heap task (some t)
    worker := { w.worker with base := Function.update w.worker.base (task, i) timer }
    trace := evs ++ w.trace }

def handBack (w : World) (task : TaskPtr) (t : Task) : World :=
  { w with
    worker :=
      { w.worker with
        doingCount := w.worker.doingCount - 1
        doingMap := Function.update w.worker.doingMap t.timestamp none }
    master := w.master.enqueueResponse task
    trace :=
      .task task (.sendToMaster (some t) fun i => w.worker.base (task, i)) ::
        .accessTask task :: .task task .complete :: w.trace }

/-- Hand the task back if it is complete. -/
def finish (w : World) (task : TaskPtr) (t : Task) : World :=
  if t.doneCount ≥ t.totalCount then w.handBack task t else w

/-- A task is taken off the queue while the worker is at capacity. -/
def refuse (w : World) (task : TaskPtr) (rest : List TaskPtr) (t : Task) : World :=
  { w with
    heap := Function.update w.heap task
      (some { t with prepareError := true, preErrorCode := 1005 })
    worker := { w.worker with notifyPipe := w.worker.notifyPipe - 1, taskQueue := rest }
    master := w.master.enqueueResponse task
    trace :=
      .task task (.sendToMaster (some { t with prepareError := true, preErrorCode := 1005 })
        fun i => w.worker.base (task, i)) :: .accessTask task :: w.trace }

/-- A task is taken off the queue and admitted. -/
def accept (w : World) (task : TaskPtr) (rest : List TaskPtr) (t : Task) (now : UInt64) : World :=
  { w with
    heap := Function.update w.heap task (some { t with timestamp := now })
    worker :=
      { w.worker with
        notifyPipe := w.worker.notifyPipe - 1
        taskQueue := rest
        doingMap := Function.update w.worker.doingMap now
          (some ((w.worker.doingMap now).getD task))
        doingCount := w.worker.doingCount + 1 }
    trace := .task task .admitted :: .accessTask task :: .clock now :: w.trace }

end World

theorem World.touchPing_log (w : World) (task : TaskPtr) (i : Nat) (t : Task)
    (timer : Option Int32) (evs : List Event) (e : Event) :
    (w.log e).touchPing task i t timer evs = w.touchPing task i t timer (evs ++ [e]) := by
  simp only [touchPing, log, List.append_assoc, List.cons_append, List.nil_append]

theorem World.touchPing_setTask (w : World) (task : TaskPtr) (i : Nat) (s t : Task)
    (timer : Option Int32) (evs : List Event) :
    (w.setTask task s).touchPing task i t timer evs = w.touchPing task i t timer evs := by
  simp only [touchPing, setTask, Function.update_idem]

theorem Task.setPing_setPing (t : Task) (i : Nat) (p q : Ping) :
    (t.setPing i p).setPing i q = t.setPing i q := by
  cases h : t.pingArray <;> simp [setPing, h]

@[simp] theorem Task.pings_close (t : Task) (i : Nat) (p : Ping) :
    (t.close i p).pings = t.pings.set i p := pings_setPing t i p

/-- Changing the counter leaves the entries alone. -/
theorem Task.pings_withDoneCount (t : Task) (n : Int) :
    Task.pings { t with doneCount := n } = t.pings := rfl

section equations
variable {w : World} {task : TaskPtr} {t : Task} {i : Nat} {p : Ping}

theorem onComplete_eq (live : w.heap task = some t) :
    onComplete task w = .ok ((), w.handBack task t) := by
  simp only [onComplete, record_bind, Exec.modify_bind, readTask_bind, World.log_heap, live,
    Option.elim_some, Exec.get_bind, World.log_worker]
  cases routed : w.worker.doingMap t.timestamp with
  | none =>
      -- erasing an absent entry is what the other branch does to the map
      have absent : Function.update w.worker.doingMap t.timestamp none = w.worker.doingMap :=
        Function.update_eq_self_iff.mpr routed.symm
      simp only [sendToMaster, Exec.get_bind, record_bind, Exec.modify_apply, World.log,
        World.handBack, live, absent]
  | some other =>
      simp only [sendToMaster, eraseDoing, Exec.get_bind, Exec.modify_bind, record_bind,
        Exec.modify_apply, World.log, World.handBack, live]

theorem finish_eq (live : w.heap task = some t) :
    (if t.doneCount ≥ t.totalCount then onComplete task else pure ()) w =
      .ok ((), w.finish task t) := by
  rw [World.finish]
  split
  · exact onComplete_eq live
  · rfl

theorem finish_eq_deref {pointer : Option Nat} (live : w.heap task = some t)
    (reach : pointer = some w.worker.self) :
    (if t.doneCount ≥ t.totalCount then
      (derefWorker pointer >>= fun _ => onComplete task) else pure ()) w =
      .ok ((), w.finish task t) := by
  rw [← finish_eq live]
  split
  · rw [derefWorker_bind, if_pos reach]
  · rfl

def receiveEvents (task : TaskPtr) (i : Nat) (now : UInt64) (armed : Bool) : List Event :=
  [.accessTask task, .eventDel (task, i) armed, .ping task i (.success now),
    .accessPing task i, .clock now, .accessPing task i, .accessTask task,
    .accessPing task i, .accessTask task]

def timeoutEvents (task : TaskPtr) (i : Nat) : List Event :=
  [.accessTask task, .accessTask task, .ping task i .timeout, .accessPing task i,
    .accessPing task i]

def sendFailedEvents (task : TaskPtr) (i : Nat) : List Event :=
  [.accessTask task, .accessTask task, .ping task i .sendError, .accessPing task i,
    .accessPing task i]

theorem receiveEvents_local (task : TaskPtr) (i : Nat) (now : UInt64) :
    ∀ e ∈ receiveEvents task i now true, e.Local task i := by
  simp [receiveEvents, Event.Local]

theorem timeoutEvents_local (task : TaskPtr) (i : Nat) :
    ∀ e ∈ timeoutEvents task i, e.Local task i := by
  simp [timeoutEvents, Event.Local]

section onReceive
variable {timestamp : UInt64} {seq index : UInt16} {now : UInt64}

theorem onReceive_unknown (absent : w.worker.doingMap timestamp = none) :
    onReceive timestamp seq index now w = .ok ((), w) := by
  simp only [onReceive, Exec.get_bind, absent]
  rfl

variable (found : w.worker.doingMap timestamp = some task) (live : w.heap task = some t)
include found

include live

theorem onReceive_overflow (beyond : (index.toNat : Int) > t.totalCount) :
    onReceive timestamp seq index now w = .ok ((), w.log (.accessTask task)) := by
  simp only [onReceive, Exec.get_bind, found, readTask_bind, live, Option.elim_some,
    if_pos beyond]
  rfl

theorem onReceive_outOfRange (passes : ¬ (index.toNat : Int) > t.totalCount)
    (noEntry : t.pings[index.toNat]? = none) :
    onReceive timestamp seq index now w = .error (.pingOutOfRange task index.toNat) := by
  simp only [onReceive, Exec.get_bind, found, readTask_bind, live, Option.elim_some,
    if_neg passes, readPing_bind, World.log_heap, noEntry, Option.elim_none]

theorem onReceive_duplicate (passes : ¬ (index.toNat : Int) > t.totalCount)
    (entry : t.pings[index.toNat]? = some p) (isDone : p.status.terminal = true) :
    onReceive timestamp seq index now w =
      .ok ((), (w.log (.accessTask task)).log (.accessPing task index.toNat)) := by
  have guarded : p.status ≠ .uninited ∧ p.status ≠ .doing := by
    constructor <;> intro h <;> rw [h] at isDone <;> cases isDone
  simp only [onReceive, Exec.get_bind, found, readTask_bind, live, Option.elim_some,
    if_neg passes, readPing_bind, World.log_heap, entry, if_pos guarded]
  rfl

theorem onReceive_doing (passes : ¬ (index.toNat : Int) > t.totalCount)
    (entry : t.pings[index.toNat]? = some p) (isDoing : p.status = .doing)
    (timer : p.timeoutEvent = some (task, index.toNat)) :
    let t' := t.close index.toNat { p with status := .success, recvtime := now.toInt64 }
    onReceive timestamp seq index now w =
      .ok ((), (w.touchPing task index.toNat t' none (receiveEvents task index.toNat now
        (w.worker.base (task, index.toNat)).isSome)).finish task t') := by
  have guarded : ¬ (p.status ≠ .uninited ∧ p.status ≠ .doing) := by simp [isDoing]
  have bound : index.toNat < t.pings.length := (List.getElem?_eq_some_iff.mp entry).1
  simp only [onReceive, Exec.get_bind, found, readTask_bind, live, Option.elim_some,
    if_neg passes, readPing_bind, World.log_heap, entry, if_neg guarded, writeTask_bind,
    writePing_bind, World.setTask_heap, Function.update_self, Task.pings_withDoneCount,
    Task.pings_setPing, List.getElem?_set_self bound, Task.setPing_setPing, currentTime_bind,
    record_bind, timer, eventDel_bind, World.setTimer_heap]
  refine (finish_eq ?_).trans ?_
  · simp only [World.log_heap, World.setTimer_heap, World.setTask_heap, Function.update_self]
  · simp only [World.log, World.setTask, World.setTimer, World.touchPing, Function.update_idem,
      Task.close, receiveEvents, List.cons_append, List.nil_append]
    rfl

end onReceive

section ping
variable (live : w.heap task = some t) (entry : t.pings[i]? = some p)
include live entry

variable (parent : p.parentTask = some task) (worker : p.worker = some w.worker.self)
  (unarmed : w.worker.base (task, i) = none)
include parent worker unarmed

theorem handleTimeout_doing (isDoing : p.status = .doing) :
    let t' := t.close i { p with status := .timeout }
    Ping.handleTimeout task i w =
      .ok ((), (w.touchPing task i t' none (timeoutEvents task i)).finish task t') := by
  have guarded : ¬ (p.status ≠ .uninited ∧ p.status ≠ .doing) := by simp [isDoing]
  have noTimer : Function.update w.worker.base (task, i) none = w.worker.base :=
    Function.update_eq_self_iff.mpr unarmed.symm
  simp only [Ping.handleTimeout, readPing_bind, live, Option.elim_some, entry, if_neg guarded,
    writePing_bind, World.log_heap, record_bind, derefTask_bind parent,
    writeTask_bind, World.setTask_heap, Function.update_self, readTask_bind, Task.isComplete,
    decide_eq_true_eq]
  refine (finish_eq_deref (t := t.close i { p with status := .timeout }) ?_ ?_).trans ?_
  · simp only [World.log_heap, World.setTask_heap, Function.update_self, Task.close]
    rfl
  · exact worker
  · simp only [World.log, World.setTask, World.touchPing, Function.update_idem, Task.close,
      timeoutEvents, noTimer, List.cons_append, List.nil_append]
    rfl

theorem sendFailed_eq (isOpen : p.status.terminal = false) :
    let t' := t.close i { p with status := .sendError }
    Ping.sendFailed task i w =
      .ok ((), (w.touchPing task i t' none (sendFailedEvents task i)).finish task t') := by
  have guarded : p.status = .uninited ∨ p.status = .doing := by
    cases h : p.status <;> simp [h, PingStatus.terminal] at isOpen ⊢
  have noTimer : Function.update w.worker.base (task, i) none = w.worker.base :=
    Function.update_eq_self_iff.mpr unarmed.symm
  simp only [Ping.sendFailed, readPing_bind, live, Option.elim_some, entry, if_pos guarded,
    writePing_bind, World.log_heap, record_bind, derefTask_bind parent,
    writeTask_bind, World.setTask_heap, Function.update_self, readTask_bind, Task.isComplete,
    decide_eq_true_eq]
  refine (finish_eq_deref (t := t.close i { p with status := .sendError }) ?_ ?_).trans ?_
  · simp only [World.log_heap, World.setTask_heap, Function.update_self, Task.close]
    rfl
  · exact worker
  · simp only [World.log, World.setTask, World.touchPing, Function.update_idem, Task.close,
      sendFailedEvents, noTimer, List.cons_append, List.nil_append]
    rfl

end ping

section start
variable (live : w.heap task = some t) (entry : t.pings[i]? = some p)
  (parent : p.parentTask = some task) (worker : p.worker = some w.worker.self)
  {outcome : SendOutcome}
include live entry parent worker

theorem start_sent (converts : outcome.converts = true) (sent : outcome.sent = true) :
    let sendtime := outcome.sendtime
    Ping.start task i outcome w =
      .ok ((), w.touchPing task i
        (t.setPing i { p with
          sendtime := sendtime.toInt64, status := .doing,
          timeoutEvent := some (task, i), tv := some p.timeout })
        (some p.timeout)
        [.accessPing task i, .accessPing task i, .accessPing task i,
          .ping task i (.send (w.worker.requestFor t p.index) sendtime), .accessPing task i,
          .clock sendtime, .accessTask task, .accessPing task i, .ping task i .start]) := by
  have bound : i < t.pings.length := (List.getElem?_eq_some_iff.mp entry).1
  simp only [Ping.start, record_bind, readPing_bind, World.log_heap, live, Option.elim_some,
    entry, derefWorker_bind, if_pos worker, World.log_worker, derefTask_bind parent,
    readTask_bind, converts, sent, Bool.not_true, Bool.false_eq_true, if_false,
    currentTime_bind, writePing_bind, World.setTask_heap, Function.update_self,
    Task.pings_setPing, List.getElem?_set_self bound, List.set_set, Task.setPing_setPing,
    Ping.setTimer, World.setTask_worker, eventAdd, Exec.modify_apply]
  simp only [World.log, World.setTask, World.setTimer, World.touchPing, Function.update_idem,
    List.cons_append, List.nil_append, requestFor]

theorem start_failed (unarmed : w.worker.base (task, i) = none)
    (isOpen : p.status.terminal = false)
    (fails : ¬ (outcome.converts = true ∧ outcome.sent = true)) :
    ∃ (sendtime : Int64) (evs : List Event),
      (∀ e ∈ evs, e.Local task i) ∧ pingLog task i evs = [.sendError, .start] ∧
      let t' := t.close i { p with sendtime, status := .sendError }
      Ping.start task i outcome w =
        .ok ((), (w.touchPing task i t' none evs).finish task t') := by
  have bound : i < t.pings.length := (List.getElem?_eq_some_iff.mp entry).1
  cases converts : outcome.converts with
  | false =>
      refine ⟨p.sendtime, sendFailedEvents task i ++
        [.accessTask task, .accessPing task i, .ping task i .start], ?_, ?_, ?_⟩
      · simp [sendFailedEvents, Event.Local]
      · simp [sendFailedEvents, pingLog]
      · simp only [Ping.start, record_bind, readPing_bind, World.log_heap, live,
          Option.elim_some, entry, derefWorker_bind, World.log_worker, if_pos worker,
          derefTask_bind parent, readTask_bind, converts, Bool.not_false, if_true]
        refine (sendFailed_eq (t := t) (p := p) (by exact live) entry parent (by exact worker)
          (by exact unarmed) isOpen).trans ?_
        simp only [World.touchPing_log, List.append_assoc, List.cons_append, List.nil_append]
  | true =>
      have notSent : outcome.sent = false := by
        cases sent : outcome.sent with
        | false => rfl
        | true => exact absurd ⟨converts, sent⟩ fails
      refine ⟨outcome.sendtime.toInt64, sendFailedEvents task i ++
        [.accessPing task i, .clock outcome.sendtime, .accessTask task, .accessPing task i,
          .ping task i .start], ?_, ?_, ?_⟩
      · simp [sendFailedEvents, Event.Local]
      · simp [sendFailedEvents, pingLog]
      · simp only [Ping.start, record_bind, readPing_bind, World.log_heap, live,
          Option.elim_some, entry, derefWorker_bind, World.log_worker, if_pos worker,
          derefTask_bind parent, readTask_bind, converts, notSent, Bool.not_true, Bool.not_false,
          Bool.false_eq_true, if_false, if_true, currentTime_bind, writePing_bind]
        refine (sendFailed_eq (t := t.setPing i { p with sendtime := outcome.sendtime.toInt64 })
          (p := { p with sendtime := outcome.sendtime.toInt64 }) ?_ ?_ parent (by exact worker)
          (by exact unarmed) isOpen).trans ?_
        · exact Function.update_self ..
        · rw [Task.pings_setPing, List.getElem?_set_self bound]
        · simp only [World.touchPing_log, World.touchPing_setTask, List.append_assoc,
            List.cons_append, List.nil_append, Task.close, Task.setPing_setPing]
          rfl

end start

/-! ## One turn of doTask -/

section turn
variable (live : w.heap task = some t) (outcomes : Nat → SendOutcome) (fuel : Nat)
include live

theorem doTask_eq :
    doTask task outcomes w = doTaskFrom task outcomes (t.totalCount.toNat + 1) 0 w := by
  simp only [doTask, Exec.get_bind, live, Option.elim_some]

theorem doTaskFrom_end (atEnd : ¬ (i : Int) < t.totalCount) :
    doTaskFrom task outcomes (fuel + 1) i w = .ok ((), w.log (.accessTask task)) := by
  simp only [doTaskFrom, readTask_bind, live, Option.elim_some, if_neg atEnd]
  rfl

variable (entry : t.pings[i]? = some p) (more : (i : Int) < t.totalCount)
  (parent : p.parentTask = some task)
include entry more parent

/-- A turn whose request goes out: the ping is under way with its timer armed. -/
theorem doTaskFrom_sent (converts : (outcomes i).converts = true)
    (sent : (outcomes i).sent = true) :
    ∃ evs : List Event, (∀ e ∈ evs, e.Local task i) ∧
      pingLog task i evs =
        [.send (w.worker.requestFor t p.index) (outcomes i).sendtime, .start] ∧
      (outcomes i).sendtime ∈ readings evs ∧
      doTaskFrom task outcomes (fuel + 1) i w =
        doTaskFrom task outcomes fuel (i + 1)
          (w.touchPing task i
            (t.setPing i { p with
              worker := some w.worker.self, sendtime := (outcomes i).sendtime.toInt64,
              status := .doing, timeoutEvent := some (task, i), tv := some p.timeout })
            (some p.timeout) evs) := by
  have bound : i < t.pings.length := (List.getElem?_eq_some_iff.mp entry).1
  refine ⟨[.accessPing task i, .accessPing task i, .accessPing task i,
    .ping task i (.send (w.worker.requestFor t p.index) (outcomes i).sendtime),
    .accessPing task i, .clock (outcomes i).sendtime, .accessTask task, .accessPing task i,
    .ping task i .start, .accessPing task i, .accessTask task], ?_, ?_, ?_, ?_⟩
  · simp [Event.Local]
  · simp [pingLog]
  · simp [readings]
  · simp only [doTaskFrom, readTask_bind, live, Option.elim_some, if_pos more, Exec.get_bind,
      writePing_bind, World.log_heap, World.log_worker, entry]
    rw [Exec.bind_of_ok (start_sent
      (t := t.setPing i { p with worker := some w.worker.self })
      (p := { p with worker := some w.worker.self }) ?_ ?_ parent (by rfl) converts sent)]
    · simp only [World.touchPing_log, World.touchPing_setTask, Task.setPing_setPing,
        List.cons_append, List.nil_append]
      rfl
    · exact Function.update_self ..
    · rw [Task.pings_setPing, List.getElem?_set_self bound]

/-- A turn that fails: the ping is done, and the task with it if it was the last. -/
theorem doTaskFrom_failed (unarmed : w.worker.base (task, i) = none)
    (isOpen : p.status.terminal = false)
    (fails : ¬ ((outcomes i).converts = true ∧ (outcomes i).sent = true)) :
    ∃ (sendtime : Int64) (evs : List Event), (∀ e ∈ evs, e.Local task i) ∧
      pingLog task i evs = [.sendError, .start] ∧
      let t' := t.close i { p with worker := some w.worker.self, sendtime, status := .sendError }
      doTaskFrom task outcomes (fuel + 1) i w =
        doTaskFrom task outcomes fuel (i + 1)
          ((w.touchPing task i t' none evs).finish task t') := by
  have bound : i < t.pings.length := (List.getElem?_eq_some_iff.mp entry).1
  obtain ⟨sendtime, evs, at_i, log, run⟩ := start_failed
    (w := ((w.log (.accessTask task)).log (.accessPing task i)).setTask task
      (t.setPing i { p with worker := some w.worker.self }))
    (t := t.setPing i { p with worker := some w.worker.self })
    (p := { p with worker := some w.worker.self }) (Function.update_self ..)
    (by rw [Task.pings_setPing, List.getElem?_set_self bound]) parent rfl unarmed isOpen fails
  refine ⟨sendtime, evs ++ [.accessPing task i, .accessTask task], ?_, ?_, ?_⟩
  · refine List.forall_mem_append.mpr ⟨at_i, ?_⟩
    simp [Event.Local]
  · rw [pingLog_local at_i, log]
    rfl
  · simp only [doTaskFrom, readTask_bind, live, Option.elim_some, if_pos more, Exec.get_bind,
      writePing_bind, World.log_heap, World.log_worker, entry]
    rw [Exec.bind_of_ok run]
    simp only [World.touchPing_log, World.touchPing_setTask, Task.close, Task.setPing_setPing,
      List.append_assoc, List.cons_append, List.nil_append]
    rfl

end turn

/-! ## The notification handler -/

section notify
variable {now : UInt64} {outcomes : Nat → SendOutcome} {rest : List TaskPtr}

variable (popped : Sequence.popTail w.worker.taskQueue = some (task, rest))
  (live : w.heap task = some t)
include popped live

theorem notifyEventHandler_full (full : w.worker.doingCount ≥ DOING_TASK_CAPACITY) :
    notifyEventHandler now outcomes w = .ok ((), w.refuse task rest t) := by
  simp only [notifyEventHandler, Exec.modify_bind, Exec.get_bind, popped, if_pos full,
    writeTask_bind, live, Option.elim_some, sendToMaster, bind_assoc, record_bind,
    Exec.pure_apply]
  simp only [World.log, World.setTask, World.refuse, Function.update_self]

theorem notifyEventHandler_room (room : ¬ w.worker.doingCount ≥ DOING_TASK_CAPACITY) :
    notifyEventHandler now outcomes w =
      doTask task outcomes (w.accept task rest t now) := by
  simp only [notifyEventHandler, Exec.modify_bind, Exec.get_bind, popped, if_neg room,
    currentTime_bind, writeTask_bind, World.log_heap, live, Option.elim_some, record_bind]
  congr 1
  cases taken : w.worker.doingMap now with
  | none => simp only [World.log, World.setTask, World.accept, insertDoing, taken, Option.getD_none]
  | some other =>
      have kept : Function.update w.worker.doingMap now (some other) = w.worker.doingMap :=
        Function.update_eq_self_iff.mpr taken.symm
      simp only [World.log, World.setTask, World.accept, insertDoing, taken, Option.getD_some,
        kept]

end notify
end equations
end AsyncPing
