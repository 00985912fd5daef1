import AsyncPing.Metatheory.ServerRuns

/-!
Custody of tasks over the whole server. In every reachable state a live Task is
in one place, once, and is the key of the one request it was built for. The
branches the source calls impossible are never taken, no Task is deleted twice,
and a request has been answered as often as it was received, unless its Task is
still live.
-/
namespace AsyncPing

namespace ServerEvent

def receives (req : RequestPtr) : ServerEvent → Bool
  | received req' _ => req' = req
  | replied _ _ _ | deleted _ | impossible _ => false

def answers (req : RequestPtr) : ServerEvent → Bool
  | replied req' _ _ => req' = req
  | received _ _ | deleted _ | impossible _ => false

def builds (task : TaskPtr) : ServerEvent → Bool
  | received _ task' => task' = task
  | replied _ _ _ | deleted _ | impossible _ => false

def deletes (task : TaskPtr) : ServerEvent → Bool
  | deleted task' => task' = task
  | received _ _ | replied _ _ _ | impossible _ => false

end ServerEvent

section orderly
variable {h : List ServerEvent}

theorem Orderly.possible (orderly : Orderly h) (task : TaskPtr) : .impossible task ∉ h := by
  induction h with
  | nil => exact List.not_mem_nil
  | cons e h ih =>
      cases e with
      | received req t => simpa using ih orderly.2.2
      | replied req t reply | deleted t => simpa using ih orderly.2
      | impossible t => exact orderly.elim

/-- A request is answered as often as it is received, but for one that waits. -/
theorem Orderly.answered_once (orderly : Orderly h) (req : RequestPtr) :
    h.countP (·.receives req) = h.countP (·.answers req) + (outstanding req h).isSome.toNat := by
  induction h with
  | nil => rfl
  | cons e h ih =>
      cases e with
      | received req' task =>
          obtain ⟨waits, _, rest⟩ := orderly
          have before := ih rest
          by_cases same : req' = req
          · subst same
            rw [waits] at before
            simpa [ServerEvent.receives, ServerEvent.answers, outstanding] using before
          · simpa [ServerEvent.receives, ServerEvent.answers, outstanding, same] using before
      | replied req' task reply =>
          obtain ⟨waits, rest⟩ := orderly
          have before := ih rest
          by_cases same : req' = req
          · subst same
            rw [waits] at before
            simpa [ServerEvent.receives, ServerEvent.answers, outstanding] using before
          · simpa [ServerEvent.receives, ServerEvent.answers, outstanding, same] using before
      | deleted task =>
          simpa [ServerEvent.receives, ServerEvent.answers, outstanding] using ih orderly.2
      | impossible task => exact orderly.elim

/-- A Task is deleted as often as it is built, but for one that is live. -/
theorem Orderly.deleted_once (orderly : Orderly h) (task : TaskPtr) :
    (Undeleted task h ∧ h.countP (·.builds task) = h.countP (·.deletes task) + 1) ∨
      (¬ Undeleted task h ∧ h.countP (·.builds task) = h.countP (·.deletes task)) := by
  induction h with
  | nil => exact .inr ⟨id, rfl⟩
  | cons e h ih =>
      cases e with
      | received req task' =>
          obtain ⟨_, unused, rest⟩ := orderly
          have before := ih rest
          by_cases same : task' = task
          · subst same
            simpa [ServerEvent.builds, ServerEvent.deletes, Undeleted, unused] using before
          · simpa [ServerEvent.builds, ServerEvent.deletes, Undeleted, same] using before
      | deleted task' =>
          obtain ⟨live, rest⟩ := orderly
          have before := ih rest
          by_cases same : task' = task
          · subst same
            simpa [ServerEvent.builds, ServerEvent.deletes, Undeleted, live] using before
          · simpa [ServerEvent.builds, ServerEvent.deletes, Undeleted, same] using before
      | replied req task' reply =>
          simpa [ServerEvent.builds, ServerEvent.deletes, Undeleted] using ih orderly.2
      | impossible task' => exact orderly.elim

end orderly

/-! ## The places of a Task -/

inductive Place (W : Nat)
  | taskQueue (i : Fin W)
  | doing (i : Fin W)
  | responseQueue

section places
variable {W : Nat} {s : Server W} {a : TaskPtr}

def Server.occurrences (s : Server W) (a : TaskPtr) : Place W → Nat
  | .taskQueue i => (s.workers i).taskQueue.count a
  | .doing i => if a ∈ doingTasks (s.traces i) then 1 else 0
  | .responseQueue => s.master.responseQueue.count a

/-- In this place once, and in no other. -/
def Server.OnlyAt (s : Server W) (a : TaskPtr) (place : Place W) : Prop :=
  s.occurrences a place = 1 ∧ ∀ other, other ≠ place → s.occurrences a other = 0

theorem Server.held_eq (s : Server W) (a : TaskPtr) (i : Fin W) :
    s.held a i = s.occurrences a (.taskQueue i) + s.occurrences a (.doing i) := rfl

/-- The worker that has the Task has it in one of its two places. -/
theorem Server.onlyAt_worker {i : Fin W} (mine : s.held a i = 1)
    (others : ∀ j, j ≠ i → s.held a j = 0) (response : s.occurrences a .responseQueue = 0) :
    ∃ place, s.OnlyAt a place := by
  rw [s.held_eq] at mine
  have elsewhere : ∀ j, j ≠ i → s.occurrences a (.taskQueue j) = 0 ∧
      s.occurrences a (.doing j) = 0 := by
    intro j other
    have none := others j other
    rw [s.held_eq] at none
    omega
  by_cases queued : s.occurrences a (.taskQueue i) = 1
  · refine ⟨.taskQueue i, queued, fun other differs => ?_⟩
    cases other with
    | responseQueue => exact response
    | taskQueue j => exact (elsewhere j fun same => differs (same ▸ rfl)).1
    | doing j =>
        by_cases same : j = i
        · rw [same]
          omega
        · exact (elsewhere j same).2
  · refine ⟨.doing i, by omega, fun other differs => ?_⟩
    cases other with
    | responseQueue => exact response
    | doing j => exact (elsewhere j fun same => differs (same ▸ rfl)).2
    | taskQueue j =>
        by_cases same : j = i
        · rw [same]
          omega
        · exact (elsewhere j same).1

theorem Server.onlyAt_of_places (once : s.places a = 1) : ∃ place, s.OnlyAt a place := by
  rw [Server.places] at once
  by_cases response : s.occurrences a .responseQueue = 0
  · have total : ∑ i, s.held a i = 1 := by
      change s.master.responseQueue.count a = 0 at response
      omega
    obtain ⟨i, _, some⟩ := Finset.exists_ne_zero_of_sum_ne_zero (total.symm ▸ Nat.one_ne_zero)
    have mine := Sequence.le_sum (s.held a) i
    refine Server.onlyAt_worker (i := i) (by omega) (fun j other => ?_) response
    have both := Sequence.add_le_sum (s.held a) other
    omega
  · refine ⟨.responseQueue, ?_, fun other differs => ?_⟩
    · change s.master.responseQueue.count a ≠ 0 at response
      change s.master.responseQueue.count a = 1
      omega
    · change s.master.responseQueue.count a ≠ 0 at response
      cases other with
      | responseQueue => exact absurd rfl differs
      | taskQueue i | doing i =>
          have none := Sequence.le_sum (s.held a) i
          rw [s.held_eq] at none
          omega

theorem Server.nowhere_of_places (none : s.places a = 0) (place : Place W) :
    s.occurrences a place = 0 := by
  rw [Server.places] at none
  cases place with
  | responseQueue =>
      change s.master.responseQueue.count a = 0
      omega
  | taskQueue i | doing i =>
      have mine := Sequence.le_sum (s.held a) i
      rw [s.held_eq] at mine
      omega

end places

/-! ## The custody of the server -/

structure Server.Custody {W : Nat} (s : Server W) : Prop where
  once : ∀ a, (s.heap a).isSome = true → ∃ place, s.OnlyAt a place
  nowhere : ∀ a, s.heap a = none → ∀ place, s.occurrences a place = 0
  keys : ∀ a, (s.doingRequest a).isSome = true ↔ (s.heap a).isSome = true
  distinct : ∀ a b req, s.doingRequest a = some req → s.doingRequest b = some req → a = b
  possible : ∀ a, .impossible a ∉ s.history
  orderly : Orderly s.history
  answered : ∀ req, s.history.countP (·.receives req) = s.history.countP (·.answers req) +
    (outstanding req s.history).isSome.toNat
  deleted : ∀ a, s.history.countP (·.builds a) = s.history.countP (·.deletes a) +
    (s.heap a).isSome.toNat
  waiting : ∀ req a, outstanding req s.history = some a ↔ s.doingRequest a = some req

theorem ServerInv.custody {W : Nat} {s : Server W} (inv : ServerInv s) : s.Custody where
  once a live := by
    have places := inv.places a
    rw [live] at places
    exact Server.onlyAt_of_places places
  nowhere a free := Server.nowhere_of_places (inv.nowhere free)
  keys a := by rw [inv.ledger.keys a]
  distinct a b req first second := by
    have at_a := (inv.ledger.pending req a).mpr first
    rw [(inv.ledger.pending req b).mpr second, Option.some.injEq] at at_a
    exact at_a.symm
  possible := inv.ledger.orderly.possible
  orderly := inv.ledger.orderly
  answered := inv.ledger.orderly.answered_once
  deleted a := by
    cases inv.ledger.orderly.deleted_once a with
    | inl both =>
        obtain ⟨undeleted, count⟩ := both
        rw [count, (inv.ledger.undeleted a).mp undeleted]
        rfl
    | inr both =>
        obtain ⟨gone, count⟩ := both
        have free := mt (inv.ledger.undeleted a).mpr gone
        rw [count, Bool.eq_false_iff.mpr free]
        rfl
  waiting := inv.ledger.pending

/-- In every reachable state each Task is accounted for, and every handler that
can run runs through. -/
theorem custody_of_tasks (parse : List UInt8 → Option Value) {W : Nat} (workers : 0 < W)
    (s : Server W) (reached : (serverSystem parse W).Reachable ServerMove.InRange s) :
    s.Custody ∧ ∀ l : ServerMove W, l.enabled parse s → l.InRange s →
      ∃ s', l.serve parse s = .ok s' := by
  have inv := ServerInv.of_reachable workers reached
  exact ⟨inv.custody, fun l offered inRange => inv.progress workers offered inRange⟩

theorem custody_of_tasks_served :
    Sample.served.Custody ∧ ∀ l : ServerMove 2, l.enabled Sample.parse Sample.served →
      l.InRange Sample.served → ∃ s', l.serve Sample.parse Sample.served = .ok s' :=
  custody_of_tasks Sample.parse (by decide) Sample.served Sample.served_reachable

end AsyncPing
