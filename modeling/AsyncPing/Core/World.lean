import AsyncPing.Core.Task
import AsyncPing.Library.Machine
import Mathlib.Logic.Function.Basic

/-!
What the handlers of one TaskWorker can reach: the Task objects, the worker
with its event base, and the master's response queue. Every dereference of a
Task or Ping goes through the accessors below, which fault where the program
has undefined behaviour and otherwise enter the access in the trace. The trace
is history only; no handler reads it.
-/
namespace AsyncPing

/-- The payload fields and identifiers `Ping::start` puts on the wire. -/
structure EchoRequest where
  id : UInt16
  seq : UInt16
  threadId : UInt16
  timestamp : UInt64
  index : UInt16
  deriving DecidableEq

inductive PingEvent
  | start
  | sendError
  | send (request : EchoRequest) (sendtime : UInt64)
  | success (recvtime : UInt64)
  | timeout
  deriving DecidableEq

/-- `sendToMaster` is entered with the object and its armed timers as they are
at that moment. -/
inductive TaskEvent
  | admitted
  | complete
  | sendToMaster (contents : Option Task) (timers : Nat → Option Int32)

inductive Event
  | enqueue (task : TaskPtr) (contents : Task)
  | accessTask (task : TaskPtr)
  | accessPing (task : TaskPtr) (i : Nat)
  | clock (now : UInt64)
  | eventDel (event : EventPtr) (armed : Bool)
  | ping (task : TaskPtr) (i : Nat) (event : PingEvent)
  | task (task : TaskPtr) (event : TaskEvent)

/-- `self` stands for the object's own address. The event base holds the armed
timers with their delay in seconds. -/
structure TaskWorker where
  self : Nat
  pid : UInt32
  threadId : UInt16
  doingMap : UInt64 → Option TaskPtr
  taskQueue : List TaskPtr
  doingCount : Int
  notifyPipe : Nat
  base : EventPtr → Option Int32

/-- The part of HttpServer that workers write to. -/
structure Master where
  responseQueue : List TaskPtr
  notifyPipe : Nat

structure World where
  heap : TaskPtr → Option Task
  worker : TaskWorker
  master : Master
  trace : List Event

abbrev Handler := Exec Fault World

def TaskWorker.getShortPid (w : TaskWorker) : UInt16 := w.pid.toUInt16

namespace World

def log (w : World) (e : Event) : World := { w with trace := e :: w.trace }

def setTask (w : World) (task : TaskPtr) (t : Task) : World :=
  { w with heap := Function.update w.heap task (some t) }

def setTimer (w : World) (event : EventPtr) (tv : Option Int32) : World :=
  { w with worker := { w.worker with base := Function.update w.worker.base event tv } }

end World

/-! ## Accessors -/

def record (e : Event) : Handler Unit := modify (·.log e)

def readTask (task : TaskPtr) : Handler Task := do
  let w ← get
  match w.heap task with
  | none => throw (.deadTask task)
  | some t =>
    record (.accessTask task)
    return t

def writeTask (task : TaskPtr) (f : Task → Task) : Handler Unit := do
  let t ← readTask task
  modify (·.setTask task (f t))

def readPing (task : TaskPtr) (i : Nat) : Handler Ping := do
  let w ← get
  match w.heap task with
  | none => throw (.deadTask task)
  | some t =>
    match t.pings[i]? with
    | none => throw (.pingOutOfRange task i)
    | some p =>
      record (.accessPing task i)
      return p

def writePing (task : TaskPtr) (i : Nat) (f : Ping → Ping) : Handler Unit := do
  let p ← readPing task i
  modify fun w =>
    match w.heap task with
    | none => w
    | some t => w.setTask task (t.setPing i (f p))

/-- `Common::currentTime`; the reading comes from outside. -/
def currentTime (now : UInt64) : Handler UInt64 := do
  record (.clock now)
  return now

/-- Follow a `TaskWorker *` member. Only the worker whose handler is running may
be reached. -/
def derefWorker : Option Nat → Handler TaskWorker
  | none => throw .nullWorker
  | some worker => do
    let w ← get
    if worker = w.worker.self then return w.worker else throw (.otherWorker worker)

def derefTask : Option TaskPtr → Handler TaskPtr
  | none => throw .nullTask
  | some task => return task

def eventAdd (event : EventPtr) (tv : Int32) : Handler Unit :=
  modify (·.setTimer event (some tv))

/-- `event_del` disarms the timer; a null event is dereferenced by libevent. -/
def eventDel : Option EventPtr → Handler Unit
  | none => throw .nullEvent
  | some event => do
    let w ← get
    record (.eventDel event (w.worker.base event).isSome)
    modify (·.setTimer event none)

/-! ## Running an accessor

Each accessor followed by a continuation, in the state where it runs. -/

namespace World
variable (w : World) (e : Event) (task : TaskPtr) (t : Task) (event : EventPtr) (tv : Option Int32)

@[simp] theorem log_heap : (w.log e).heap = w.heap := rfl
@[simp] theorem log_worker : (w.log e).worker = w.worker := rfl
@[simp] theorem log_master : (w.log e).master = w.master := rfl
@[simp] theorem log_trace : (w.log e).trace = e :: w.trace := rfl
@[simp] theorem setTask_heap :
    (w.setTask task t).heap = Function.update w.heap task (some t) := rfl
@[simp] theorem setTask_worker : (w.setTask task t).worker = w.worker := rfl
@[simp] theorem setTask_master : (w.setTask task t).master = w.master := rfl
@[simp] theorem setTask_trace : (w.setTask task t).trace = w.trace := rfl
@[simp] theorem setTimer_heap : (w.setTimer event tv).heap = w.heap := rfl
@[simp] theorem setTimer_worker : (w.setTimer event tv).worker =
    { w.worker with base := Function.update w.worker.base event tv } := rfl
@[simp] theorem setTimer_master : (w.setTimer event tv).master = w.master := rfl
@[simp] theorem setTimer_trace : (w.setTimer event tv).trace = w.trace := rfl

end World

section accessors
variable {β : Type} {w : World} {task : TaskPtr} {i : Nat}

theorem record_bind (e : Event) (k : Unit → Handler β) :
    (record e >>= k) w = k () (w.log e) := rfl

theorem currentTime_bind (now : UInt64) (k : UInt64 → Handler β) :
    (currentTime now >>= k) w = k now (w.log (.clock now)) := rfl

theorem readTask_bind (k : Task → Handler β) :
    (readTask task >>= k) w =
      (w.heap task).elim (.error (.deadTask task)) fun t => k t (w.log (.accessTask task)) := by
  cases live : w.heap task <;>
    simp only [readTask, bind_assoc, Exec.get_bind, live] <;> rfl

theorem writeTask_bind (f : Task → Task) (k : Unit → Handler β) :
    (writeTask task f >>= k) w =
      (w.heap task).elim (.error (.deadTask task)) fun t =>
        k () ((w.log (.accessTask task)).setTask task (f t)) := by
  simp only [writeTask, bind_assoc, readTask_bind]
  rfl

theorem readPing_bind (k : Ping → Handler β) :
    (readPing task i >>= k) w =
      (w.heap task).elim (.error (.deadTask task)) fun t =>
        t.pings[i]?.elim (.error (.pingOutOfRange task i)) fun p =>
          k p (w.log (.accessPing task i)) := by
  cases live : w.heap task with
  | none =>
      simp only [readPing, bind_assoc, Exec.get_bind, live]
      rfl
  | some t =>
      cases entry : t.pings[i]? <;>
        simp only [readPing, bind_assoc, Exec.get_bind, live, entry, Option.elim_some,
          Option.elim_none] <;> rfl

theorem writePing_bind (f : Ping → Ping) (k : Unit → Handler β) :
    (writePing task i f >>= k) w =
      (w.heap task).elim (.error (.deadTask task)) fun t =>
        t.pings[i]?.elim (.error (.pingOutOfRange task i)) fun p =>
          k () ((w.log (.accessPing task i)).setTask task (t.setPing i (f p))) := by
  simp only [writePing, bind_assoc, readPing_bind, Exec.modify_bind]
  cases live : w.heap task with
  | none => rfl
  | some t => simp only [World.log_heap, live, Option.elim_some]

theorem derefWorker_bind (pointer : Option Nat) (k : TaskWorker → Handler β) :
    (derefWorker pointer >>= k) w =
      if pointer = some w.worker.self then k w.worker w
      else .error (pointer.elim .nullWorker .otherWorker) := by
  cases pointer with
  | none => rfl
  | some self =>
      simp only [derefWorker, bind_assoc, Exec.get_bind, Option.some.injEq]
      split <;> rfl

theorem derefTask_bind {pointer : Option TaskPtr} (reach : pointer = some task)
    (k : TaskPtr → Handler β) : (derefTask pointer >>= k) w = k task w := by
  rw [reach]
  rfl

theorem eventDel_bind (event : EventPtr) (k : Unit → Handler β) :
    (eventDel (some event) >>= k) w =
      k () ((w.log (.eventDel event (w.worker.base event).isSome)).setTimer event none) := rfl

end accessors
end AsyncPing
