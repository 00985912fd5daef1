import AsyncPing.Core.World
import AsyncPing.Library.Sequence

/-!
The handlers of a TaskWorker (`TaskWorker.cpp`, `Ping.cpp`). Clock readings and
the outcomes of inet_pton and sendto are arguments, as they come from outside;
the log messages are left out.
-/
namespace AsyncPing

def DOING_TASK_CAPACITY : Int := 1024

/-- What the system answers while one ping is started: whether inet_pton
returned 1, the clock before sendto, and whether sendto returned other than -1. -/
structure SendOutcome where
  converts : Bool
  sendtime : UInt64
  sent : Bool

/-- `HttpServer::enqueueResponse` followed by `HttpServer::notify`. -/
def Master.enqueueResponse (m : Master) (resp : TaskPtr) : Master where
  responseQueue := resp :: m.responseQueue
  notifyPipe := m.notifyPipe + 1

namespace TaskWorker

/-- `pushHead` on the queue. -/
def enqueueTask (w : TaskWorker) (task : TaskPtr) : TaskWorker :=
  { w with taskQueue := task :: w.taskQueue }

def notify (w : TaskWorker) : TaskWorker := { w with notifyPipe := w.notifyPipe + 1 }

def sendToMaster (response : TaskPtr) : Handler Unit := do
  let w ← get
  record (.task response (.sendToMaster (w.heap response) fun i => w.worker.base (response, i)))
  modify fun w => { w with master := w.master.enqueueResponse response }

def eraseDoing (timestamp : UInt64) (w : World) : World :=
  { w with worker :=
      { w.worker with doingMap := Function.update w.worker.doingMap timestamp none } }

def onComplete (task : TaskPtr) : Handler Unit := do
  record (.task task .complete)
  modify fun w => { w with worker := { w.worker with doingCount := w.worker.doingCount - 1 } }
  -- the timestamp passes through an int64_t, which loses nothing
  let t ← readTask task
  let w ← get
  match w.worker.doingMap t.timestamp with
  | none => sendToMaster task
  | some _ =>
    modify (eraseDoing t.timestamp)
    sendToMaster task

def onReceive (timestamp : UInt64) (_seq index : UInt16) (now : UInt64) : Handler Unit := do
  let w ← get
  match w.worker.doingMap timestamp with
  | none => return
  | some task =>
    let t ← readTask task
    if (index.toNat : Int) > t.totalCount then
      return
    let p ← readPing task index.toNat
    if p.status ≠ .uninited ∧ p.status ≠ .doing then
      return
    writeTask task fun t => { t with doneCount := t.doneCount + 1 }
    writePing task index.toNat fun p => { p with status := .success }
    let recvtime ← currentTime now
    writePing task index.toNat fun p => { p with recvtime := recvtime.toInt64 }
    record (.ping task index.toNat (.success recvtime))
    eventDel p.timeoutEvent
    let t ← readTask task
    if t.doneCount ≥ t.totalCount then
      onComplete task

end TaskWorker

namespace Ping
open TaskWorker

/-- `Ping::handleTimeout`, run by libevent when the timer of this ping fires. -/
def handleTimeout (task : TaskPtr) (i : Nat) : Handler Unit := do
  let me ← readPing task i
  if me.status ≠ .uninited ∧ me.status ≠ .doing then
    return
  writePing task i fun p => { p with status := .timeout }
  record (.ping task i .timeout)
  let parentTask ← derefTask me.parentTask
  writeTask parentTask fun t => { t with doneCount := t.doneCount + 1 }
  let t ← readTask parentTask
  if t.isComplete then
    let _ ← derefWorker me.worker
    onComplete parentTask

def setTimer (task : TaskPtr) (i : Nat) : Handler Unit := do
  let me ← readPing task i
  let _ ← derefWorker me.worker
  writePing task i fun p => { p with timeoutEvent := some (task, i), tv := some p.timeout }
  eventAdd (task, i) me.timeout

/-- The block `start` runs after inet_pton, and again after sendto, has failed. -/
def sendFailed (task : TaskPtr) (i : Nat) : Handler Unit := do
  let me ← readPing task i
  if me.status = .uninited ∨ me.status = .doing then
    writePing task i fun p => { p with status := .sendError }
    record (.ping task i .sendError)
    let parentTask ← derefTask me.parentTask
    writeTask parentTask fun t => { t with doneCount := t.doneCount + 1 }
    let t ← readTask parentTask
    if t.isComplete then
      let _ ← derefWorker me.worker
      onComplete parentTask

def start (task : TaskPtr) (i : Nat) (outcome : SendOutcome) : Handler Unit := do
  record (.ping task i .start)
  let me ← readPing task i
  let worker ← derefWorker me.worker
  let parentTask ← derefTask me.parentTask
  let parent ← readTask parentTask
  let request : EchoRequest :=
    { id := worker.getShortPid, seq := 0, threadId := worker.threadId,
      timestamp := parent.timestamp, index := me.index }
  if !outcome.converts then
    sendFailed task i
  else
    let sendtime ← currentTime outcome.sendtime
    writePing task i fun p => { p with sendtime := sendtime.toInt64 }
    if !outcome.sent then
      sendFailed task i
    else
      record (.ping task i (.send request sendtime))
      writePing task i fun p => { p with status := .doing }
      setTimer task i

end Ping

namespace TaskWorker

/-- The loop of `TaskWorker::doTask` from position `i` on. `totalCount` is read
again before every turn; `fuel` bounds the number of these reads. -/
def doTaskFrom (task : TaskPtr) (outcomes : Nat → SendOutcome) : (fuel i : Nat) → Handler Unit
  | 0, _ => throw .outOfFuel
  | fuel + 1, i => do
    let t ← readTask task
    if (i : Int) < t.totalCount then
      let w ← get
      writePing task i fun p => { p with worker := some w.worker.self }
      Ping.start task i (outcomes i)
      doTaskFrom task outcomes fuel (i + 1)

def doTask (task : TaskPtr) (outcomes : Nat → SendOutcome) : Handler Unit := do
  let w ← get
  let turns := (w.heap task).elim 0 fun t => t.totalCount.toNat
  doTaskFrom task outcomes (turns + 1) 0

/-- `doingMap.insert`, which changes nothing when the key is present. -/
def insertDoing (now : UInt64) (task : TaskPtr) (w : World) : World :=
  match w.worker.doingMap now with
  | some _ => w
  | none =>
    { w with worker :=
        { w.worker with doingMap := Function.update w.worker.doingMap now (some task) } }

def notifyEventHandler (now : UInt64) (outcomes : Nat → SendOutcome) : Handler Unit := do
  modify fun w => { w with worker := { w.worker with notifyPipe := w.worker.notifyPipe - 1 } }
  let w ← get
  match Sequence.popTail w.worker.taskQueue with
  | none => return
  | some (task, rest) =>
    modify fun w => { w with worker := { w.worker with taskQueue := rest } }
    if w.worker.doingCount ≥ DOING_TASK_CAPACITY then
      writeTask task fun t => { t with prepareError := true, preErrorCode := 1005 }
      sendToMaster task
      return
    let now ← currentTime now
    writeTask task fun t => { t with timestamp := now }
    modify (insertDoing now task)
    modify fun w => { w with worker := { w.worker with doingCount := w.worker.doingCount + 1 } }
    record (.task task .admitted)
    doTask task outcomes

end TaskWorker
end AsyncPing
