import AsyncPing.Library.Machine

/-!
`ThreadWorker` (`common/ThreadWorker.cpp`): the two fields that its operations keep
about the thread, and the threads the object has created and joined. The latter are
history; no code reads them but the model of `pthread_join`.
-/
namespace AsyncPing

/-- `pthread_join` on memory that holds no thread, or one that was joined before. -/
inductive ThreadFault
  | invalidHandle
  deriving DecidableEq

/-- `ended` is the flag `end`. The pointer `threadInst` is null or leads to memory
for a handle, in which there may be none yet. Threads are numbered in the order in
which the object creates them. -/
structure ThreadWorker where
  ended : Bool
  threadInst : Option (Option Nat)
  created : Nat
  joined : List Nat

abbrev ThreadCode (α : Type) := Exec ThreadFault ThreadWorker α

namespace ThreadWorker

/-- `ThreadWorker::ThreadWorker()`. -/
def construct : ThreadWorker := ⟨true, none, 0, []⟩

/-- `pthread_create(threadInst, ...)`; `status` comes from outside. The handle is
only written on success. -/
def pthreadCreate (status : Nat) : ThreadCode Nat := do
  if status = 0 then
    modify fun w => { w with threadInst := some (some w.created), created := w.created + 1 }
  return status

/-- `pthread_join(*threadInst, NULL)`, which succeeds on a valid handle. -/
def pthreadJoin : ThreadCode Nat := do
  let w ← get
  match w.threadInst with
  | some (some thread) =>
    if thread ∈ w.joined then
      throw .invalidHandle
    modify fun w => { w with joined := thread :: w.joined }
    return 0
  | _ => throw .invalidHandle

def runIt (status : Nat) : ThreadCode Bool := do
  let w ← get
  if !w.ended then
    -- already running
    return true
  -- threadInst = new pthread_t
  modify fun w => { w with threadInst := some none }
  let status ← pthreadCreate status
  if status ≠ 0 then
    return false
  modify fun w => { w with ended := false }
  return true

def endThread : ThreadCode Bool := do
  modify fun w => { w with ended := true }
  return true

def join : ThreadCode Unit := do
  let w ← get
  if w.threadInst = none then
    return ()
  let status ← pthreadJoin
  if status ≠ 0 then
    return ()
  -- delete threadInst
  modify fun w => { w with threadInst := none }

/-- `ThreadWorker::~ThreadWorker()`, without the attributes. -/
def destroy : ThreadCode Unit := do
  let w ← get
  if w.threadInst.isSome then
    modify fun w => { w with ended := true }
    let _ ← pthreadJoin

end ThreadWorker

/-- A call of one of the operations, with what `pthread_create` returns if it comes
to that. -/
inductive ThreadCall
  | runIt (status : Nat)
  | endThread
  | join

def ThreadCall.run : ThreadCall → ThreadCode Unit
  | runIt status => do
    let _ ← ThreadWorker.runIt status
  | endThread => do
    let _ ← ThreadWorker.endThread
  | join => ThreadWorker.join

end AsyncPing
