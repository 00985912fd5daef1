import AsyncPing.Core.WorkerSystem

/-!
HttpServer with its registered TaskWorkers. The Task objects are shared; every
worker has its own trace, and the server keeps the history of the requests. A
worker's handler runs on the part of the state that the worker can reach.
-/
namespace AsyncPing

/-- Addresses of request objects (`struct evhttp_request *`). -/
abbrev RequestPtr := Nat

/-- `enum evhttp_cmd_type`. -/
inductive EvhttpCmdType
  | get | post | head | put | delete | options | trace | connect | patch
  deriving DecidableEq

structure EvhttpRequest where
  self : RequestPtr
  cmdType : EvhttpCmdType
  inputBuffer : List UInt8

/-- What libevent is told to send: the documents of the buffer, or an error page. -/
inductive Reply
  | sendReply (code : Int) (reason : String) (databuf : List Value)
  | sendError (code : Int) (reason : String)

inductive ServerEvent
  | received (req : RequestPtr) (task : TaskPtr)
  | replied (req : RequestPtr) (task : TaskPtr) (reply : Reply)
  | deleted (task : TaskPtr)
  | impossible (task : TaskPtr)

/-- `randedIndex` is absent until the first call of `sendToWorker` has
initialised it. `W` is WORKER_NUM. -/
structure Server (W : Nat) where
  heap : TaskPtr → Option Task
  workers : Fin W → TaskWorker
  traces : Fin W → List Event
  master : Master
  doingRequest : TaskPtr → Option RequestPtr
  randedIndex : Option Int
  history : List ServerEvent

abbrev ServerHandler (W : Nat) := Exec Fault (Server W)

/-- The Task built for a request that has been received and not answered. -/
def outstanding (req : RequestPtr) : List ServerEvent → Option TaskPtr
  | [] => none
  | .received req' task :: h => if req' = req then some task else outstanding req h
  | .replied req' _ _ :: h => if req' = req then none else outstanding req h
  | .deleted _ :: h | .impossible _ :: h => outstanding req h

namespace Server
variable {W : Nat}

/-! ## The part of one worker -/

def focus (s : Server W) (i : Fin W) : World where
  heap := s.heap
  worker := s.workers i
  master := s.master
  trace := s.traces i

/-- The state after worker `i` has turned its part into `w`. -/
def resume (s : Server W) (i : Fin W) (w : World) : Server W :=
  { s with
    heap := w.heap
    workers := Function.update s.workers i w.worker
    traces := Function.update s.traces i w.trace
    master := w.master }

def log (s : Server W) (e : ServerEvent) : Server W := { s with history := e :: s.history }

def setTask (s : Server W) (task : TaskPtr) (t : Option Task) : Server W :=
  { s with heap := Function.update s.heap task t }

def setRequest (s : Server W) (task : TaskPtr) (req : Option RequestPtr) : Server W :=
  { s with doingRequest := Function.update s.doingRequest task req }

end Server
end AsyncPing
