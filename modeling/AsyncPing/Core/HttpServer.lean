import AsyncPing.Core.Server

/-!
The handlers of the HTTP thread (`HttpHandler.cpp`, `HttpServer.cpp`,
`HttpResponse.cpp`). The text parser of JsonValue is the parameter `parse`; what
`new` and `rand` return are arguments, as they come from outside.
-/
namespace AsyncPing

def RECV_BUF_SIZE : Nat := 4097

def RAND_MAX : Nat := 2147483647

/-- `Common::getRandIntvalue`, with the product taken exactly. -/
def getRandIntvalue (rand : Nat) (start stop : Int) : Int :=
  if stop ≤ start then start else start + (rand : Int) * (stop - start) / (RAND_MAX + 1)

/-! ## Responses -/

/-- `evb` holds the documents added to the buffer. -/
structure HttpResponse where
  request : RequestPtr
  evb : List Value
  responseCode : Int

namespace HttpResponse

/-- `HttpResponse::HttpResponse(struct evhttp_request *)`. -/
def ofRequest (req : RequestPtr) : HttpResponse := ⟨req, [], 200⟩

def fillCode (response : HttpResponse) (respCode : Int) : HttpResponse :=
  { response with responseCode := respCode }

def fillContent (response : HttpResponse) (content : Value) : HttpResponse :=
  { response with evb := response.evb ++ [content] }

def doResponse (response : HttpResponse) : Reply :=
  if response.responseCode = 200 then .sendReply response.responseCode "OK" response.evb
  else if response.responseCode = 405 then
    .sendError response.responseCode "Method Not Allowed"
  else if response.responseCode = 415 then
    .sendError response.responseCode "Unsupported Media Type"
  else .sendError response.responseCode "Unknown Error"

end HttpResponse

def Task.fillHttpResponse (self : TaskPtr) (t : Task) (response : HttpResponse) :
    Except Fault HttpResponse :=
  if t.preErrorCode > 0 ∧ t.preErrorCode < 1000 then .ok (response.fillCode t.preErrorCode)
  else (t.buildResponse self).map response.fillContent

/-! ## Requests -/

namespace HttpHandler

/-- The loop of both overloads of `recvReqInput`, for chunks of this many bytes, with
the buffer it leaves; absent when it is still running after `fuel` tests of its
condition. `retData += recvbuf` appends the bytes before the first NUL of the chunk. -/
def recvLoop (chunk : Nat) :
    (fuel : Nat) → (buf retData : List UInt8) → Option (List UInt8 × List UInt8)
  | 0, _, _ => none
  | fuel + 1, buf, retData =>
      if buf.isEmpty then some (buf, retData)
      else
        let recvbuf := buf.take chunk
        recvLoop chunk fuel (buf.drop chunk) (retData ++ recvbuf.takeWhile (· ≠ 0))

/-- The text the loop comes to. Every chunk takes a byte or more out of the buffer, so
these tests are enough. -/
def recvReqInput (req : EvhttpRequest) : List UInt8 :=
  (recvLoop (RECV_BUF_SIZE - 1) (req.inputBuffer.length + 1) req.inputBuffer []).elim []
    Prod.snd

/-- `recvReqInput(req, string &retData)`, which clears the string first. -/
def recvReqInputText (fuel : Nat) (req : EvhttpRequest) (_retData : List UInt8) :
    Option (List UInt8 × List UInt8) :=
  recvLoop (RECV_BUF_SIZE - 1) fuel req.inputBuffer []

/-- `recvReqInput(req, JsonValue &jv)`; its text goes to `jv.parse`. -/
def recvReqInputJson {α : Type} (parse : List UInt8 → α) (fuel : Nat) (req : EvhttpRequest) :
    Option (List UInt8 × α) :=
  (recvLoop (RECV_BUF_SIZE - 1) fuel req.inputBuffer []).map fun r => (r.1, parse r.2)

end HttpHandler

/-- Where `new` puts a Task, what the memory there holds, and how many tests of
its condition the constructor's loop is followed for. -/
structure Allocation where
  task : TaskPtr
  raw : RawMemory
  fuel : Nat

namespace HttpHandler

/-- The constructor that `handlePingReq` calls for this request. -/
def construct (parse : List UInt8 → Option Value) (req : EvhttpRequest) (site : Allocation) :
    ExceptT Thrown Option Task :=
  if req.cmdType ≠ .post then pure (Task.ofErrorCode site.raw 405)
  else
    match parse (recvReqInput req) with
    | none => pure (Task.ofErrorCode site.raw 415)
    | some jv => Task.ofJson site.task site.raw site.fuel jv

end HttpHandler

/-! ## Handlers -/

namespace HttpServer
variable {W : Nat}

def record (e : ServerEvent) : ServerHandler W Unit := modify (·.log e)

def readTask (task : TaskPtr) : ServerHandler W Task := do
  let s ← get
  match s.heap task with
  | none => throw (.deadTask task)
  | some t => return t

/-- `delete`; the object must be there. -/
def deleteTask (task : TaskPtr) : ServerHandler W Unit := do
  let _ ← readTask task
  record (.deleted task)
  modify (·.setTask task none)

/-- `workers[index]`. -/
def workerAt (index : Int) : ServerHandler W (Fin W) :=
  if inside : 0 ≤ index ∧ index.toNat < W then return ⟨index.toNat, inside.2⟩
  else throw (.workerOutOfRange index)

/-- `enqueueTask` and `notify` on a worker. The contents enter its trace only. -/
def enqueueAt (i : Fin W) (task : TaskPtr) (contents : Task) (s : Server W) : Server W :=
  { s with
    workers := Function.update s.workers i ((s.workers i).enqueueTask task).notify
    traces := Function.update s.traces i (.enqueue task contents :: s.traces i) }

def sendToWorker (task : TaskPtr) (contents : Task) (rand : Nat) : ServerHandler W Unit := do
  let s ← get
  let index := s.randedIndex.getD (getRandIntvalue rand 0 W)
  let worker ← workerAt index
  modify (enqueueAt worker task contents)
  modify fun s => { s with randedIndex := some ((index + 1).tmod W) }

/-- `new Task(...)`. -/
def newTask (built : ExceptT Thrown Option Task) (task : TaskPtr) : ServerHandler W Unit :=
  match built.run with
  | none => throw .outOfFuel
  | some (.error exception) => throw (.uncaught exception)
  | some (.ok t) => modify (·.setTask task (some t))

def handlePingReq (parse : List UInt8 → Option Value) (req : EvhttpRequest) (site : Allocation)
    (rand : Nat) : ServerHandler W Unit := do
  record (.received req.self site.task)
  newTask (HttpHandler.construct parse req site) site.task
  let s ← get
  match s.doingRequest site.task with
  | some _ =>
    record (.impossible site.task)
    deleteTask site.task
  | none =>
    modify (·.setRequest site.task (some req.self))
    let t ← readTask site.task
    if t.prepareError then
      modify fun s => { s with master := s.master.enqueueResponse site.task }
    else
      sendToWorker site.task t rand

def tryRespEventHandler : ServerHandler W Unit := do
  modify fun s => { s with master := { s.master with notifyPipe := s.master.notifyPipe - 1 } }
  let s ← get
  match Sequence.popTail s.master.responseQueue with
  | none => return
  | some (taskResp, rest) =>
    modify fun s => { s with master := { s.master with responseQueue := rest } }
    match s.doingRequest taskResp with
    | none =>
      record (.impossible taskResp)
      deleteTask taskResp
    | some req =>
      modify (·.setRequest taskResp none)
      let t ← readTask taskResp
      let response ← liftM (t.fillHttpResponse taskResp (.ofRequest req))
      record (.replied response.request taskResp response.doResponse)
      deleteTask taskResp

end HttpServer
end AsyncPing
