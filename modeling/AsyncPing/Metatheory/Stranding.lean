import AsyncPing.Metatheory.ServerRuns
import Mathlib.Tactic.FinCases

/-!
Requests that are never answered. Completion is only noticed by the handlers of a
ping, so an admitted Task without pings stays admitted: no handler runs for it.
Every other admitted Task has a ping whose timer is armed. When nothing is left
to happen, all requests have been answered exactly when no Task without pings was
ever admitted.
-/
namespace AsyncPing

/-- The Task a worker admits, if it admits one, has a ping. -/
def WorkerMove.HasPings (w : World) : WorkerMove → Prop
  | notified _ _ => ∀ a rest t, Sequence.popTail w.worker.taskQueue = some (a, rest) →
      w.worker.doingCount < DOING_TASK_CAPACITY → w.heap a = some t → 0 < t.totalCount
  | request _ _ _ _ | datagram _ _ _ _ | expired _ _ | deleted _ => True

def ServerMove.HasPings {W : Nat} (s : Server W) : ServerMove W → Prop
  | worker i move => move.HasPings (s.focus i)
  | request _ _ _ | respond => True

/-- Admitted, and without pings. -/
def World.Stranded (w : World) (a : TaskPtr) : Prop :=
  a ∈ doingTasks w.trace ∧ ∃ t, w.heap a = some t ∧ t.totalCount ≤ 0

def Server.Stranded {W : Nat} (s : Server W) : Prop := ∃ i a, (s.focus i).Stranded a

/-! ## One worker -/

section worker
variable {w w' : World} {task a : TaskPtr} {l : WorkerMove}

theorem World.Touches.stranded_iff (touches : w.Touches task w') (other : a ≠ task) :
    w'.Stranded a ↔ w.Stranded a := by
  rw [World.Stranded, World.Stranded, (touches.keeps a other).doing, touches.heap a other]

/-- A task that a handler closes a ping of is not stranded, before or after. -/
theorem World.Serving.not_stranded {t t' : Task} {i : Nat} {p : Ping} (serving : w.Serving task t)
    (entry : t.pings[i]? = some p) (total : t'.totalCount = t.totalCount)
    (live : w'.heap task = some t') : ¬ w'.Stranded task := by
  rintro ⟨_, s, live', empty⟩
  rw [live, Option.some.injEq] at live'
  have inside := (List.getElem?_eq_some_iff.mp entry).1
  have length := serving.total
  rw [← live', total] at empty
  omega

/-- Closing a ping strands nobody and frees nobody. -/
theorem WorkerInv.closes_stranded {t : Task} {i : Nat} {p p' : Ping} {evs : List Event}
    (inv : WorkerInv none w) (held : task ∈ doingTasks w.trace) (live : w.heap task = some t)
    (entry : t.pings[i]? = some p) (at_i : ∀ e ∈ evs, e.Local task i) :
    ((w.touchPing task i (t.close i p') none evs).finish task (t.close i p')).Stranded a ↔
      w.Stranded a := by
  by_cases same : a = task
  · subst same
    have serving := inv.serving held live
    have after : ((w.touchPing a i (t.close i p') none evs).finish a (t.close i p')).heap a =
        some (t.close i p') := by
      rw [World.finish_heap]
      exact Function.update_self ..
    exact iff_of_false (serving.not_stranded entry (by rfl) after)
      (serving.not_stranded entry rfl live)
  · exact ((touchPing_touches at_i).trans finish_touches).stranded_iff same

theorem Notification.stranded_iff {now : UInt64} {outcomes : Nat → SendOutcome}
    (inv : WorkerInv none w) (notification : Notification w now outcomes w') :
    (∃ a, w'.Stranded a) ↔
      (∃ a, w.Stranded a) ∨ ¬ (WorkerMove.notified now outcomes).HasPings w := by
  cases notification with
  | refused task rest t popped live fresh full =>
      obtain ⟨_, _, _, _, _, gone, _⟩ := inv.of_popped popped
      have same : ∀ a, (w.refuse task rest t).Stranded a ↔ w.Stranded a := by
        intro a
        by_cases same : a = task
        · subst same
          exact iff_of_false (fun now => Finset.notMem_erase a _ now.1) fun before => gone before.1
        · exact refuse_touches.stranded_iff same
      have passes : (WorkerMove.notified now outcomes).HasPings w := by
        intro a rest' t' _ room
        omega
      simp only [same, passes, not_true_eq_false, or_false]
  | admitted task rest t w' popped live fresh room dispatches =>
      obtain ⟨_, _, _, _, _, gone, _⟩ := inv.of_popped popped
      have touches : w.Touches task w' := by
        cases dispatches with
        | waiting _ _ touches | failed _ touches => exact accept_touches.trans touches
      by_cases pings : 0 < t.totalCount
      · have passes : (WorkerMove.notified now outcomes).HasPings w := by
          intro a rest' t' popped' _ live'
          rw [popped, Option.some.injEq, Prod.mk.injEq] at popped'
          rw [← popped'.1, live, Option.some.injEq] at live'
          exact live' ▸ pings
        have after : ¬ w'.Stranded task := by
          rintro ⟨held, s, live', empty⟩
          cases dispatches with
          | waiting t' _ _ _ live'' _ total =>
              rw [live', Option.some.injEq] at live''
              have same : s.totalCount = t.totalCount := live'' ▸ total
              omega
          | failed _ _ gone' => exact gone' held
        have same : ∀ a, w'.Stranded a ↔ w.Stranded a := by
          intro a
          by_cases same : a = task
          · subst same
            exact iff_of_false after fun before => gone before.1
          · exact touches.stranded_iff same
        simp only [same, passes, not_true_eq_false, or_false]
      · have lacks : ¬ (WorkerMove.notified now outcomes).HasPings w :=
          fun passes => pings (passes task rest t popped (by omega) live)
        refine iff_of_true ⟨task, ?_⟩ (.inr lacks)
        cases dispatches with
        | waiting t' _ _ held live' _ total =>
            have same : t'.totalCount = t.totalCount := total
            exact ⟨held, t', live', by omega⟩
        | failed _ _ _ _ _ nonempty => exact absurd nonempty pings

/-- Only an admission strands a task, and only one without pings. -/
theorem World.Moved.stranded_iff (inv : WorkerInv none w) (loop : l.InLoop) (moved : w.Moved l w') :
    (∃ a, w'.Stranded a) ↔ (∃ a, w.Stranded a) ∨ ¬ l.HasPings w := by
  cases moved with
  | request | deleted => exact loop.elim
  | datagram timestamp seq index now w' reception =>
      have same : ∀ a, w'.Stranded a ↔ w.Stranded a := by
        intro a
        cases reception with
        | unknown | overflow | duplicate => exact .rfl
        | success task t p found held live entry waiting armed =>
            exact inv.closes_stranded held live entry (receiveEvents_local _ _ _)
      simp only [same, WorkerMove.HasPings, not_true_eq_false, or_false]
  | expired task i w' armed fired =>
      obtain ⟨held, t, p, live, entry, waiting⟩ := inv.waiting_of_armed armed
      rw [fire_eq inv armed live entry, Except.ok.injEq, Prod.mk.injEq] at fired
      obtain ⟨-, rfl⟩ := fired
      have same : ∀ a, ((w.touchPing task i (t.close i { p with status := .timeout }) none
          (timeoutEvents task i)).finish task
            (t.close i { p with status := .timeout })).Stranded a ↔ w.Stranded a :=
        fun a => inv.closes_stranded held live entry (timeoutEvents_local _ _)
      simp only [same, WorkerMove.HasPings, not_true_eq_false, or_false]
  | notified now outcomes w' notification => exact notification.stranded_iff inv

end worker

/-! ## The server -/

section server
variable {W : Nat} {parse : List UInt8 → Option Value} {s s' : Server W} {i : Fin W} {a : TaskPtr}

theorem World.stranded_congr {w w' : World} (doing : doingTasks w'.trace = doingTasks w.trace)
    (heap : a ∈ doingTasks w.trace → w'.heap a = w.heap a) : w'.Stranded a ↔ w.Stranded a := by
  rw [World.Stranded, World.Stranded, doing]
  constructor <;> rintro ⟨held, t, live, empty⟩
  · exact ⟨held, t, (heap held).symm.trans live, empty⟩
  · exact ⟨held, t, (heap held).trans live, empty⟩

theorem Server.stranded_congr (same : ∀ i a, (s'.focus i).Stranded a ↔ (s.focus i).Stranded a) :
    s'.Stranded ↔ s.Stranded := by
  simp only [Server.Stranded, same]

theorem ServerInv.resume_stranded_iff (inv : ServerInv s) {move : WorkerMove} {w' : World}
    (loop : move.InLoop) (moved : (s.focus i).Moved move w') :
    (s.resume i w').Stranded ↔ s.Stranded ∨ ¬ move.HasPings (s.focus i) := by
  have mine := moved.stranded_iff (inv.worker i) loop
  have acts := (moved.advances (inv.worker i) loop).acts
  have others : ∀ j, j ≠ i → ∀ a, ((s.resume i w').focus j).Stranded a ↔
      (s.focus j).Stranded a := by
    intro j other a
    rw [Server.focus_resume_of_ne other]
    exact World.stranded_congr rfl fun held =>
      acts.heap a (inv.apart (Ne.symm other) (.inr held))
  constructor
  · rintro ⟨j, a, stranded⟩
    by_cases same : j = i
    · subst same
      rw [Server.focus_resume_self] at stranded
      exact (mine.mp ⟨a, stranded⟩).imp_left fun ⟨b, before⟩ => ⟨j, b, before⟩
    · exact .inl ⟨j, a, (others j same a).mp stranded⟩
  · intro cause
    by_cases elsewhere : ∃ j, j ≠ i ∧ ∃ a, (s.focus j).Stranded a
    · obtain ⟨j, other, a, stranded⟩ := elsewhere
      exact ⟨j, a, (others j other a).mpr stranded⟩
    · have here : (∃ a, (s.focus i).Stranded a) ∨ ¬ move.HasPings (s.focus i) := by
        refine cause.imp_left fun ⟨j, a, stranded⟩ => ?_
        by_cases same : j = i
        · exact ⟨a, same ▸ stranded⟩
        · exact absurd ⟨j, same, a, stranded⟩ elsewhere
      obtain ⟨a, stranded⟩ := mine.mpr here
      exact ⟨i, a, by rw [Server.focus_resume_self]; exact stranded⟩

theorem Server.Moved.stranded_iff (inv : ServerInv s) {l : ServerMove W}
    (moved : Server.Moved parse s l s') : s'.Stranded ↔ s.Stranded ∨ ¬ l.HasPings s := by
  cases moved with
  | worker i move w' loop moved => exact inv.resume_stranded_iff loop moved
  | rejected req site rand t free fresh built bad =>
      have same : (s.reject req.self site.task t).Stranded ↔ s.Stranded :=
        Server.stranded_congr fun j a => World.stranded_congr rfl fun held =>
          Function.update_of_ne (inv.holds_other free (.inr held)) ..
      simp only [same, ServerMove.HasPings, not_true_eq_false, or_false]
  | passedOn req site rand t i free fresh built ready =>
      have same : (s.passOn req.self site.task t i).Stranded ↔ s.Stranded := by
        refine Server.stranded_congr fun j a => World.stranded_congr ?_ fun held =>
          Function.update_of_ne (inv.holds_other free (.inr held)) ..
        change doingTasks (Function.update s.traces i _ j) = doingTasks (s.traces j)
        by_cases here : j = i
        · subst here
          rw [Function.update_self]
          rfl
        · rw [Function.update_of_ne here]
      simp only [same, ServerMove.HasPings, not_true_eq_false, or_false]
  | answered task req rest t response popped request live filled =>
      have member : task ∈ s.master.responseQueue := by
        simp [Sequence.popTail_eq_some.mp popped]
      have same : (s.answer req task rest response.doResponse).Stranded ↔ s.Stranded := by
        refine Server.stranded_congr fun j a => World.stranded_congr rfl fun held => ?_
        refine Function.update_of_ne ?_ ..
        intro same
        subst same
        exact (inv.of_response member).2 j (.inr held)
      simp only [same, ServerMove.HasPings, not_true_eq_false, or_false]

end server

/-! ## Quiescence -/

/-- Nothing is left to happen: no pipe holds a byte and no timer is armed. -/
structure Server.Quiescent {W : Nat} (s : Server W) : Prop where
  master : s.master.notifyPipe = 0
  workers : ∀ i, (s.workers i).notifyPipe = 0
  timers : ∀ i event, (s.workers i).base event = none

/-- Every request received has been answered, and no capacity is in use. -/
structure Server.Answered {W : Nat} (s : Server W) : Prop where
  requests : ∀ a, s.doingRequest a = none
  waiting : ∀ req, outstanding req s.history = none
  counts : ∀ i, (s.workers i).doingCount = 0

section quiescent
variable {W : Nat} {s : Server W} {i : Fin W} {a : TaskPtr}

/-- A Task that is still admitted when no timer is armed has no pings. -/
theorem WorkerInv.stranded_of_unarmed {w : World} (inv : WorkerInv none w)
    (held : a ∈ doingTasks w.trace) (unarmed : ∀ event, w.worker.base event = none) :
    w.Stranded a := by
  obtain ⟨_, t, live, serving, underway⟩ := inv.of_doing held
  refine ⟨held, t, live, ?_⟩
  by_contra some
  have total := serving.total
  have counted := serving.counted
  have nonempty : t.pings ≠ [] := List.length_pos_iff.mp (by omega)
  have short := underway.waiting nonempty
  have fewer : t.pings.countP (·.status.terminal) < t.pings.length := by omega
  obtain ⟨i, p, entry, isOpen⟩ := Sequence.exists_open _ fewer
  have started := underway.started p (List.mem_of_getElem? entry)
  have waiting : p.status = .doing := by
    cases status : p.status <;> simp_all [PingStatus.terminal]
  have armed := (serving.entry i p entry).agrees.armed_iff.mpr waiting
  rw [unarmed (a, i)] at armed
  cases armed

/-- When nothing is left to happen, a Task is live only if it is stranded. -/
theorem ServerInv.dead_of_quiescent (inv : ServerInv s) (quiet : s.Quiescent)
    (none : ¬ s.Stranded) (a : TaskPtr) : s.heap a = .none := by
  have nobody : ∀ i, s.held a i = 0 := by
    intro i
    have pipe := (inv.worker i).pipe
    change (s.workers i).notifyPipe = (s.workers i).taskQueue.length at pipe
    rw [quiet.workers i] at pipe
    have noQueue := List.eq_nil_of_length_eq_zero pipe.symm
    have gone : a ∉ doingTasks (s.traces i) := fun held =>
      none ⟨i, a, (inv.worker i).stranded_of_unarmed held (quiet.timers i)⟩
    rw [Server.held, noQueue, if_neg gone]
    rfl
  have noResponse : s.master.responseQueue = [] :=
    List.eq_nil_of_length_eq_zero (inv.pipe.symm.trans quiet.master)
  have places := inv.places a
  rw [Server.places, Finset.sum_eq_zero fun i _ => nobody i, noResponse] at places
  cases live : s.heap a with
  | none => rfl
  | some t =>
      rw [live] at places
      cases places

theorem ServerInv.answered_iff (inv : ServerInv s) (quiet : s.Quiescent) :
    s.Answered ↔ ¬ s.Stranded := by
  constructor
  · rintro answered ⟨i, a, held, _⟩
    have count := (inv.worker i).count
    have some := Finset.card_pos.mpr ⟨a, held⟩
    have zero : (s.focus i).worker.doingCount = 0 := answered.counts i
    omega
  · intro none
    have dead := inv.dead_of_quiescent quiet none
    have requests : ∀ a, s.doingRequest a = .none := fun a => inv.ledger.no_request (dead a)
    refine ⟨requests, fun req => ?_, fun i => ?_⟩
    · cases waiting : outstanding req s.history with
      | none => rfl
      | some a =>
          have request := (inv.ledger.pending req a).mp waiting
          rw [requests a] at request
          cases request
    · have empty : doingTasks (s.traces i) = ∅ := by
        refine Finset.eq_empty_of_forall_notMem fun a held => ?_
        exact none ⟨i, a, (inv.worker i).stranded_of_unarmed held (quiet.timers i)⟩
      have count := (inv.worker i).count
      change (s.workers i).doingCount = (doingTasks (s.traces i)).card at count
      rw [count, empty]
      rfl

end quiescent

/-- When nothing is left to happen, every request has been answered exactly when
the run has admitted no Task without pings. -/
theorem request_answered_iff (parse : List UInt8 → Option Value) {W : Nat} (workers : 0 < W)
    (s : Server W) (reached : (serverSystem parse W).Reachable ServerMove.InRange s)
    (quiet : s.Quiescent) :
    s.Answered ↔ (serverSystem parse W).Reachable (fun r l => l.InRange r ∧ l.HasPings r) s := by
  rw [(ServerInv.of_reachable workers reached).answered_iff quiet]
  refine reached.safe_iff (fun s => ¬ s.Stranded) (fun r l => l.HasPings r) (fun s₀ boots => ?_)
    fun r l r' before offered inRange served => ?_
  · rintro ⟨i, a, held, _⟩
    change a ∈ doingTasks (s₀.focus i).trace at held
    rw [(boots.2.1 i).2.1] at held
    exact absurd held (Finset.notMem_empty a)
  · have inv := ServerInv.of_reachable workers before
    rw [(inv.moved workers offered served).stranded_iff inv, not_or, not_not]

namespace Sample

/-- Both requests are answered; no address of the first converts. -/
def settledMoves : List (ServerMove 2) :=
  [.request ⟨100, .post, text⟩ ⟨7, raw, 2⟩ 0, .request ⟨101, .get, []⟩ ⟨8, raw, 0⟩ 0,
    .worker first (.notified 50 fails), .respond, .respond]

def settled : Server 2 :=
  ((serverSystem parse 2).follow ServerMove.InRange server settledMoves).get rfl

theorem settled_reachable : (serverSystem parse 2).Reachable ServerMove.InRange settled :=
  Machine.reachable_of_follow server_boots settledMoves rfl

theorem settled_quiescent : settled.Quiescent :=
  ⟨rfl, fun i => by fin_cases i <;> rfl, fun i event => by fin_cases i <;> rfl⟩

/-- A request for no servers. -/
def strandedMoves : List (ServerMove 2) :=
  [.request ⟨100, .post, emptyText⟩ ⟨7, raw, 1⟩ 0, .worker first (.notified 50 fails)]

def stranded : Server 2 :=
  ((serverSystem parse 2).follow ServerMove.InRange server strandedMoves).get rfl

theorem stranded_reachable : (serverSystem parse 2).Reachable ServerMove.InRange stranded :=
  Machine.reachable_of_follow server_boots strandedMoves rfl

theorem stranded_quiescent : stranded.Quiescent :=
  ⟨rfl, fun i => by fin_cases i <;> rfl, fun i event => by fin_cases i <;> rfl⟩

end Sample

theorem request_answered_iff_settled :
    Sample.settled.Answered ↔ (serverSystem Sample.parse 2).Reachable
      (fun r l => l.InRange r ∧ l.HasPings r) Sample.settled :=
  request_answered_iff Sample.parse (by decide) Sample.settled Sample.settled_reachable
    Sample.settled_quiescent

/-- The request for no servers is never answered. -/
theorem request_not_answered :
    ¬ ∀ (parse : List UInt8 → Option Value) (W : Nat) (s : Server W), 0 < W →
      (serverSystem parse W).Reachable ServerMove.InRange s → s.Quiescent → s.Answered := by
  intro answers
  have answered := answers Sample.parse 2 Sample.stranded (by decide) Sample.stranded_reachable
    Sample.stranded_quiescent
  have waits : Sample.stranded.doingRequest 7 = some 100 := rfl
  rw [answered.requests 7] at waits
  cases waits

end AsyncPing
