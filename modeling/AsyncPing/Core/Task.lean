import AsyncPing.Core.JsonValue

/-!
`Ping` and `Task` (`Ping.h`, `Task.h`, `Task.cpp`): the objects, the two Task
constructors and the response builder. A Task is named by its address, a Ping
by its Task and its position in `pingArray`. Members that a constructor does
not set keep whatever the memory held.
-/
namespace AsyncPing

/-- Addresses of Task objects (`Task *`). -/
abbrev TaskPtr := Nat

/-- A `struct event` is known by the Ping it was assigned to. -/
abbrev EventPtr := TaskPtr × Nat

/-- The values of `Ping::status` in `Ping.h`. -/
inductive PingStatus
  | timeout
  | uninited
  | doing
  | sendError
  | success
  deriving DecidableEq, Repr

structure Ping where
  index : UInt16
  ip : String
  timeout : Int32
  status : PingStatus
  sendtime : Int64
  recvtime : Int64
  worker : Option Nat
  parentTask : Option TaskPtr
  timeoutEvent : Option EventPtr
  tv : Option Int32
  deriving DecidableEq

structure Task where
  prepareError : Bool
  preErrorCode : Int
  timestamp : UInt64
  totalCount : Int
  doneCount : Int
  pingArray : Option (List Ping)
  deriving DecidableEq

/-- What freshly allocated memory holds before a constructor runs. -/
structure RawMemory where
  timestamp : UInt64
  ping : Nat → Ping

def MAX_PING_PER_TASK : Int := 65536

/-- Undefined behaviour, or a loop cut off before its end. -/
inductive Fault
  | deadTask (task : TaskPtr)
  | pingOutOfRange (task : TaskPtr) (index : Nat)
  | nullTask
  | nullWorker
  | otherWorker (worker : Nat)
  | nullEvent
  | workerOutOfRange (index : Int)
  | uncaught (exception : Thrown)
  | outOfFuel
  deriving DecidableEq

/-- A ping is done in these states, whatever happens later. -/
def PingStatus.terminal : PingStatus → Bool
  | .success | .timeout | .sendError => true
  | .uninited | .doing => false

namespace Ping

/-- `Ping::Ping()` leaves index, timeout, status and the times unset. -/
def new (raw : Ping) : Ping :=
  { raw with ip := "", worker := none, parentTask := none, timeoutEvent := none, tv := none }

/-- `(double)(p->recvtime - p->sendtime) / 1000.0`. The quotient is kept exact; it is
rounded to a double where the response is printed. -/
def cost (p : Ping) : Rat := ((p.recvtime - p.sendtime).toInt : Rat) / 1000

end Ping

namespace Task

/-- The entries behind `pingArray`; a null pointer has none. -/
def pings (t : Task) : List Ping := t.pingArray.getD []

def setPing (t : Task) (i : Nat) (p : Ping) : Task :=
  { t with pingArray := t.pingArray.map (·.set i p) }

def isComplete (t : Task) : Bool := t.doneCount ≥ t.totalCount

@[simp] theorem pings_setPing (t : Task) (i : Nat) (p : Ping) :
    (t.setPing i p).pings = t.pings.set i p := by
  cases h : t.pingArray <;> simp [setPing, pings, h]

@[simp] theorem setPing_totalCount (t : Task) (i : Nat) (p : Ping) :
    (t.setPing i p).totalCount = t.totalCount := rfl

@[simp] theorem setPing_doneCount (t : Task) (i : Nat) (p : Ping) :
    (t.setPing i p).doneCount = t.doneCount := rfl

@[simp] theorem setPing_timestamp (t : Task) (i : Nat) (p : Ping) :
    (t.setPing i p).timestamp = t.timestamp := rfl

@[simp] theorem setPing_prepareError (t : Task) (i : Nat) (p : Ping) :
    (t.setPing i p).prepareError = t.prepareError := rfl

@[simp] theorem setPing_preErrorCode (t : Task) (i : Nat) (p : Ping) :
    (t.setPing i p).preErrorCode = t.preErrorCode := rfl

/-! ## Constructors -/

/-- `Task::Task(int errorCode)`. -/
def ofErrorCode (raw : RawMemory) (errorCode : Int) : Task where
  prepareError := true
  preErrorCode := errorCode
  timestamp := raw.timestamp
  totalCount := 0
  doneCount := 0
  pingArray := none

/-- The loop of `Task::Task(JsonValue &)`. Its counter is an unsigned short and
the bound an int; `fuel` bounds the number of tests of the condition. -/
def fillPings (self : TaskPtr) (servers : Value) (timeout : Int32) (size : Int) :
    Nat → UInt16 → List Ping → ExceptT Thrown Option (List Ping)
  | 0, _, _ => ExceptT.mk none
  | fuel + 1, i, pingArray =>
      if (i.toNat : Int) < size then do
        let server ← servers.element i.toNat
        let ip ← server.asString
        fillPings self servers timeout size fuel (i + 1)
          (pingArray.modify i.toNat fun p =>
            { p with index := i, ip, timeout, status := .uninited, parentTask := some self })
      else pure pingArray

/-- `Task::Task(JsonValue &)`: absent when the loop is still running after
`fuel` tests, an exception when an accessor or `new[]` throws. -/
def ofJson (self : TaskPtr) (raw : RawMemory) (fuel : Nat) (body : Value) :
    ExceptT Thrown Option Task := do
  let task : Task := { ofErrorCode raw 0 with prepareError := false }
  let rejected (code : Int) : Task := { task with prepareError := true, preErrorCode := code }
  if !body.isObject then
    return rejected 1001
  let entry ← body.get "timeout" (.intValue 5)
  let timeout ← entry.asInt
  if timeout ≤ 0 then
    return rejected 1002
  let servers ← body.member "servers"
  if servers.isNull || !servers.isArray then
    return rejected 1003
  let size := servers.size.toInt32.toInt
  if size > MAX_PING_PER_TASK then
    return rejected 1004
  if size < 0 then
    throw .badArrayLength
  let fresh := (List.range size.toNat).map fun i => Ping.new (raw.ping i)
  let pingArray ← fillPings self servers timeout size fuel 0 fresh
  return { task with totalCount := size, doneCount := 0, pingArray := some pingArray }

/-! ## The response -/

def errorMsg : Int → String
  | 1001 => "payload invalid, json body is not an object"
  | 1002 => "payload invalid, timeout invalid"
  | 1003 => "payload invalid, servers invalid, null or not array"
  | 1004 => "payload invalid, servers overflow, too much servers in one request (capacity: 65536)"
  | 1005 => "too many tasks working, drop this task"
  | 1006 => "init task error, casuse varies, please check log"
  | _ => "unknown error"

/-- One turn of the loop over the pings: the assignments to
`body["results"][i]`. -/
def writeResult (i : Nat) (p : Ping) (body : Value) : Value :=
  let at_i (key : String) (v : Value) :=
    Value.modifyMember "results" (Value.modifyElement i (Value.modifyMember key fun _ => v))
  let lossRate : Rat := if p.status = .success then 0 else 1
  let body := at_i "ip" (.stringValue p.ip) body
  let body := at_i "lossRate" (.realValue (.finite lossRate)) body
  if lossRate = 0 then at_i "avgRtt" (.realValue (.finite p.cost)) body else body

def writeResults (self : TaskPtr) (t : Task) : (remaining i : Nat) → Value → Except Fault Value
  | 0, _, body => .ok body
  | remaining + 1, i, body =>
      match t.pings[i]? with
      | none => .error (.pingOutOfRange self i)
      | some p => writeResults self t remaining (i + 1) (writeResult i p body)

/-- `Task::buildResponse`, up to the serialisation of `body`. -/
def buildResponse (self : TaskPtr) (t : Task) : Except Fault Value :=
  let body := Value.nullValue
  if t.prepareError then
    .ok <| (body.modifyMember "success" fun _ => .booleanValue false).modifyMember "errMsg"
      fun _ => .stringValue (errorMsg t.preErrorCode)
  else
    writeResults self t t.totalCount.toNat 0 <|
      (body.modifyMember "success" fun _ => .booleanValue true).modifyMember "errMsg"
        fun _ => .stringValue ""

end Task
end AsyncPing
