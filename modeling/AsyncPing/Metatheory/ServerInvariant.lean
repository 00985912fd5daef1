import AsyncPing.Core.ServerSystem
import AsyncPing.Metatheory.ResponseTruth

/-!
The invariant of the server between two handlers. Every worker satisfies its own
invariant, every live Task is in exactly one place, and the map of pending
requests, the history and the live Tasks tell the same story.
-/
namespace AsyncPing

/-- Built for some request and not deleted. -/
def Undeleted (task : TaskPtr) : List ServerEvent → Prop
  | [] => False
  | .received _ task' :: h => task' = task ∨ Undeleted task h
  | .deleted task' :: h => task' ≠ task ∧ Undeleted task h
  | .replied _ _ _ :: h | .impossible _ :: h => Undeleted task h

/-- A request is received when it is not pending, for a new Task; it is answered
when it is pending, by its own Task; only an undeleted Task is deleted. -/
def Orderly : List ServerEvent → Prop
  | [] => True
  | .received req task :: h => outstanding req h = none ∧ ¬ Undeleted task h ∧ Orderly h
  | .replied req task _ :: h => outstanding req h = some task ∧ Orderly h
  | .deleted task :: h => Undeleted task h ∧ Orderly h
  | .impossible _ :: _ => False

/-- The response builder stays inside the ping array. -/
def Task.Answerable (t : Task) : Prop :=
  t.prepareError = true ∨ t.totalCount = t.pings.length

namespace Server
variable {W : Nat}

/-- How often worker `i` has the Task, in its queue or among those admitted. -/
def held (s : Server W) (task : TaskPtr) (i : Fin W) : Nat :=
  (s.workers i).taskQueue.count task + if task ∈ doingTasks (s.traces i) then 1 else 0

/-- In how many places a Task is. -/
def places (s : Server W) (task : TaskPtr) : Nat :=
  ∑ i, s.held task i + s.master.responseQueue.count task

/-- The pending requests, the live Tasks and the history agree. -/
structure Ledger (s : Server W) : Prop where
  keys : ∀ a, (s.doingRequest a).isSome = (s.heap a).isSome
  pending : ∀ req a, outstanding req s.history = some a ↔ s.doingRequest a = some req
  undeleted : ∀ a, Undeleted a s.history ↔ (s.heap a).isSome = true
  orderly : Orderly s.history

end Server

structure ServerInv {W : Nat} (s : Server W) : Prop where
  worker : ∀ i, WorkerInv none (s.focus i)
  places : ∀ a, s.places a = (s.heap a).isSome.toNat
  ledger : s.Ledger
  pipe : s.master.notifyPipe = s.master.responseQueue.length
  answerable : ∀ a ∈ s.master.responseQueue, ∃ t, s.heap a = some t ∧ t.Answerable
  index : ∀ index ∈ s.randedIndex, 0 ≤ index ∧ index.toNat < W

/-! ## Places -/

section places
variable {W : Nat} {s s' : Server W} {i j : Fin W} {a : TaskPtr}

theorem Server.holdings_focus (s : Server W) (i : Fin W) (a : TaskPtr) :
    (s.focus i).holdings a = s.held a i + s.master.responseQueue.count a := rfl

theorem Server.held_pos : 0 < s.held a i ↔ (s.focus i).Holds a := by
  rw [Server.held, World.Holds]
  constructor
  · intro some
    by_cases admitted : a ∈ doingTasks (s.traces i)
    · exact .inr admitted
    · rw [if_neg admitted, Nat.add_zero] at some
      exact .inl (List.count_pos_iff.mp some)
  · rintro (queued | admitted)
    · have count := List.count_pos_iff.mpr queued
      change 0 < (s.workers i).taskQueue.count a at count
      omega
    · have one : a ∈ doingTasks (s.traces i) := admitted
      rw [if_pos one]
      omega

namespace ServerInv
variable (inv : ServerInv s)
include inv

theorem at_most_one (a : TaskPtr) : s.places a ≤ 1 := by
  rw [inv.places a]
  exact Bool.toNat_le _

theorem live_of_holds (holds : (s.focus i).Holds a) : (s.heap a).isSome = true := by
  have some := Server.held_pos.mpr holds
  have total := Sequence.le_sum (s.held a) i
  have places := inv.places a
  rw [Server.places] at places
  cases live : (s.heap a).isSome with
  | true => rfl
  | false =>
      rw [live, Bool.toNat_false] at places
      omega

theorem apart (other : j ≠ i) (holds : (s.focus i).Holds a) : ¬ (s.focus j).Holds a := by
  intro also
  have first := Server.held_pos.mpr holds
  have second := Server.held_pos.mpr also
  have total := Sequence.add_le_sum (s.held a) other
  have once := inv.at_most_one a
  rw [Server.places] at once
  omega

/-- A response is in its queue once and with no worker. -/
theorem of_response (member : a ∈ s.master.responseQueue) :
    s.master.responseQueue.count a = 1 ∧ ∀ i, ¬ (s.focus i).Holds a := by
  have present := List.count_pos_iff.mpr member
  have once := inv.at_most_one a
  rw [Server.places] at once
  refine ⟨by omega, fun i holds => ?_⟩
  have some := Server.held_pos.mpr holds
  have total := Sequence.le_sum (s.held a) i
  omega

end ServerInv
end places

/-! ## The ledger -/

namespace Server
variable {W : Nat} {s s' : Server W} {task : TaskPtr} {req : RequestPtr}

/-- A handler that only changes Tasks in place leaves the ledger balanced. -/
theorem Ledger.of_live (ledger : s.Ledger) (live : ∀ a, (s'.heap a).isSome = (s.heap a).isSome)
    (requests : s'.doingRequest = s.doingRequest) (history : s'.history = s.history) :
    s'.Ledger where
  keys a := by rw [requests, live]; exact ledger.keys a
  pending req a := by rw [history, requests]; exact ledger.pending req a
  undeleted a := by rw [history, live]; exact ledger.undeleted a
  orderly := by rw [history]; exact ledger.orderly

theorem Ledger.no_request (ledger : s.Ledger) (free : s.heap task = none) :
    s.doingRequest task = none := by
  have same := ledger.keys task
  rw [free] at same
  simpa using same

theorem Ledger.keys_update (ledger : s.Ledger) {request : Option RequestPtr}
    {contents : Option Task} (both : request.isSome = contents.isSome) (a : TaskPtr) :
    (Function.update s.doingRequest task request a).isSome =
      (Function.update s.heap task contents a).isSome := by
  by_cases same : a = task
  · subst same
    rw [Function.update_self, Function.update_self]
    exact both
  · rw [Function.update_of_ne same, Function.update_of_ne same]
    exact ledger.keys a

theorem Ledger.receive (ledger : s.Ledger) {t : Task} (free : s.heap task = none)
    (fresh : outstanding req s.history = none)
    (heap : s'.heap = Function.update s.heap task (some t))
    (requests : s'.doingRequest = Function.update s.doingRequest task (some req))
    (history : s'.history = .received req task :: s.history) : s'.Ledger where
  keys a := by
    rw [heap, requests]
    exact ledger.keys_update rfl a
  pending req' a := by
    have before := ledger.pending req' a
    have unused := ledger.no_request free
    rw [history, requests, outstanding]
    by_cases same : a = task
    · subst same
      rw [Function.update_self]
      split
      · rename_i eq
        subst eq
        exact iff_of_true rfl rfl
      · rename_i other
        rw [before, unused]
        simp [other]
    · rw [Function.update_of_ne same]
      split
      · rename_i eq
        subst eq
        rw [← before, fresh]
        simp [Ne.symm same]
      · exact before
  undeleted a := by
    rw [history, heap, Undeleted, ledger.undeleted a]
    by_cases same : a = task
    · subst same
      rw [Function.update_self]
      simp
    · rw [Function.update_of_ne same]
      simp [Ne.symm same]
  orderly := by
    have dead : ¬ Undeleted task s.history := by
      rw [ledger.undeleted task, free]
      nofun
    rw [history]
    exact ⟨fresh, dead, ledger.orderly⟩

theorem Ledger.answer (ledger : s.Ledger) {reply : Reply} (request : s.doingRequest task = some req)
    (heap : s'.heap = Function.update s.heap task none)
    (requests : s'.doingRequest = Function.update s.doingRequest task none)
    (history : s'.history = .deleted task :: .replied req task reply :: s.history) :
    s'.Ledger where
  keys a := by
    rw [heap, requests]
    exact ledger.keys_update rfl a
  pending req' a := by
    have before := ledger.pending req' a
    have own := (ledger.pending req task).mpr request
    rw [history, requests, outstanding, outstanding]
    by_cases same : a = task
    · subst same
      rw [Function.update_self]
      split
      · exact iff_of_false nofun nofun
      · rename_i other
        rw [before, request]
        simp [other]
    · rw [Function.update_of_ne same]
      split
      · rename_i eq
        subst eq
        rw [← before, own]
        simp [Ne.symm same]
      · exact before
  undeleted a := by
    rw [history, heap, Undeleted, Undeleted, ledger.undeleted a]
    by_cases same : a = task
    · subst same
      rw [Function.update_self]
      simp
    · rw [Function.update_of_ne same]
      simp [Ne.symm same]
  orderly := by
    have alive : Undeleted task s.history := by
      rw [ledger.undeleted task, ← ledger.keys task, request]
      rfl
    rw [history]
    exact ⟨alive, (ledger.pending req task).mpr request, ledger.orderly⟩

end Server

end AsyncPing
