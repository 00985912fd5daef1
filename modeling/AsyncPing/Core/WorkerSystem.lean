import AsyncPing.Core.TaskWorker

/-!
One TaskWorker and everything around it. The HTTP thread builds Tasks from
request bodies and sends the accepted ones to the worker; it deletes handed
back Tasks at any later moment. The event loop of the worker runs a handler
when its pipe holds a byte, when a datagram is there, or when a timer expires.
A move is one handler; moves come in any order.
-/
namespace AsyncPing
open TaskWorker

/-- The Task that `new Task(jv)` leaves at this address, when the constructor
returns and has not rejected the body. -/
def Task.accepted (self : TaskPtr) (raw : RawMemory) (fuel : Nat) (body : Value) : Option Task :=
  match (Task.ofJson self raw fuel body : Option (Except Thrown Task)) with
  | some (.ok t) => if t.prepareError then none else some t
  | _ => none

inductive WorkerMove
  | request (task : TaskPtr) (raw : RawMemory) (fuel : Nat) (body : Value)
  | notified (now : UInt64) (outcomes : Nat → SendOutcome)
  | datagram (timestamp : UInt64) (seq index : UInt16) (now : UInt64)
  | expired (task : TaskPtr) (i : Nat)
  | deleted (task : TaskPtr)

namespace World

/-- The new Task is in the heap and `sendToWorker` has passed it on. -/
def submit (w : World) (task : TaskPtr) (t : Task) : World :=
  { w with
    heap := Function.update w.heap task (some t)
    worker := (w.worker.enqueueTask task).notify
    trace := .enqueue task t :: w.trace }

def delete (w : World) (task : TaskPtr) : World :=
  { w with
    heap := Function.update w.heap task none
    master := { w.master with responseQueue := w.master.responseQueue.erase task } }

/-- libevent disarms the timer and calls the handler of its ping. -/
def fire (w : World) (task : TaskPtr) (i : Nat) : Except Fault (Unit × World) :=
  Ping.handleTimeout task i (w.setTimer (task, i) none)

/-- A worker before its event loop starts. -/
def Boots (w : World) : Prop :=
  (∀ a, w.heap a = none) ∧ w.trace = [] ∧ w.master.responseQueue = [] ∧
    w.worker.taskQueue = [] ∧ w.worker.notifyPipe = 0 ∧ w.worker.doingCount = 0 ∧
    (∀ ts, w.worker.doingMap ts = none) ∧ ∀ event, w.worker.base event = none

/-- The Task a timestamp finds. -/
def found (w : World) (timestamp : UInt64) : Option Task :=
  (w.worker.doingMap timestamp).bind w.heap

end World

namespace WorkerMove

def enabled (w : World) : WorkerMove → Prop
  | request task raw fuel body => w.heap task = none ∧ (Task.accepted task raw fuel body).isSome
  | notified _ _ => 0 < w.worker.notifyPipe
  | datagram _ _ _ _ => True
  | expired task i => (w.worker.base (task, i)).isSome
  | deleted task => task ∈ w.master.responseQueue

def serve : WorkerMove → World → Except Fault World
  | request task raw fuel body, w =>
      (Task.accepted task raw fuel body).elim (.error .outOfFuel) fun t => .ok (w.submit task t)
  | notified now outcomes, w => (notifyEventHandler now outcomes w).map Prod.snd
  | datagram timestamp seq index now, w => (onReceive timestamp seq index now w).map Prod.snd
  | expired task i, w => (w.fire task i).map Prod.snd
  | deleted task, w => .ok (w.delete task)

/-- A delivered reply carries an index below `totalCount` of the task found. -/
def InRange (w : World) : WorkerMove → Prop
  | datagram timestamp _ index _ => ∀ t ∈ w.found timestamp, (index.toNat : Int) < t.totalCount
  | request _ _ _ _ | notified _ _ | expired _ _ | deleted _ => True

/-- Served by the event loop of the worker itself. -/
def InLoop : WorkerMove → Prop
  | notified _ _ | datagram _ _ _ _ | expired _ _ => True
  | request _ _ _ _ | deleted _ => False

instance (w : World) (l : WorkerMove) : Decidable (l.enabled w) :=
  match l with
  | request task raw fuel body =>
      inferInstanceAs (Decidable (w.heap task = none ∧ (Task.accepted task raw fuel body).isSome))
  | notified _ _ => inferInstanceAs (Decidable (0 < w.worker.notifyPipe))
  | datagram _ _ _ _ => inferInstanceAs (Decidable True)
  | expired task i => inferInstanceAs (Decidable (w.worker.base (task, i)).isSome)
  | deleted task => inferInstanceAs (Decidable (task ∈ w.master.responseQueue))

instance (w : World) (l : WorkerMove) : Decidable (l.InRange w) :=
  match l with
  | datagram timestamp _ index _ =>
      inferInstanceAs (Decidable (∀ t ∈ w.found timestamp, (index.toNat : Int) < t.totalCount))
  | request _ _ _ _ | notified _ _ | expired _ _ | deleted _ => inferInstanceAs (Decidable True)

instance (l : WorkerMove) : Decidable l.InLoop :=
  match l with
  | notified _ _ | datagram _ _ _ _ | expired _ _ => inferInstanceAs (Decidable True)
  | request _ _ _ _ | deleted _ => inferInstanceAs (Decidable False)

end WorkerMove

def workerSystem : Machine World WorkerMove Fault where
  start := World.Boots
  enabled w l := l.enabled w
  serve := WorkerMove.serve

instance (w : World) (l : WorkerMove) : Decidable (workerSystem.enabled w l) :=
  inferInstanceAs (Decidable (l.enabled w))

end AsyncPing
