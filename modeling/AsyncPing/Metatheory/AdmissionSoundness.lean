import AsyncPing.Metatheory.HandlerSoundness

/-!
The notification handler: a queued task is refused at capacity, or admitted and
started ping by ping. The loop of doTask either ends with the task under way,
or its last turn closes the last ping of a task none of whose requests went
out; then the task is handed back inside the loop, and the condition of the
loop reads it once more.
-/
namespace AsyncPing
open TaskWorker

/-- The request leaves the machine. -/
def SendOutcome.goesOut (o : SendOutcome) : Bool := o.converts && o.sent

/-- The pings below `k` have been started, the others have not. -/
structure Task.Starting (outcomes : Nat → SendOutcome) (k : Nat) (t : Task) : Prop where
  before : ∀ (i : Nat) (p : Ping), t.pings[i]? = some p → i < k →
    p.status ≠ .uninited ∧ (p.status = .doing ↔ (outcomes i).goesOut = true)
  after : ∀ (i : Nat) (p : Ping), t.pings[i]? = some p → k ≤ i → p.status = .uninited
  short : t.pings ≠ [] → t.doneCount < t.totalCount

/-- From one turn of the loop to the next. -/
structure World.Turns (w : World) (task : TaskPtr) (t : Task) (w' : World) (t' : Task) :
    Prop where
  inv : WorkerInv (some task) w'
  acts : w.Acts w'
  touches : w.Touches task w'
  held : task ∈ doingTasks w'.trace
  live : w'.heap task = some t'
  stamp : t'.timestamp = t.timestamp
  total : t'.totalCount = t.totalCount
  routes : w'.worker.doingMap = w.worker.doingMap
  safe : NoAccessAfterHandOver w.trace → NoAccessAfterHandOver w'.trace

/-- What doTask comes to. -/
inductive World.Dispatches (w : World) (task : TaskPtr) (t : Task)
    (outcomes : Nat → SendOutcome) (w' : World) : Prop
  | waiting (t' : Task) (advances : w.Advances w') (touches : w.Touches task w')
      (held : task ∈ doingTasks w'.trace) (live : w'.heap task = some t')
      (stamp : t'.timestamp = t.timestamp) (total : t'.totalCount = t.totalCount)
      (routes : w'.worker.doingMap = w.worker.doingMap)
      (safe : NoAccessAfterHandOver w.trace → NoAccessAfterHandOver w'.trace)
      (sent : 0 < t.totalCount →
        ∃ i : Nat, (i : Int) < t.totalCount ∧ (outcomes i).goesOut = true)
  | failed (advances : w.Advances w') (touches : w.Touches task w')
      (gone : task ∉ doingTasks w'.trace)
      (routes : w'.worker.doingMap = Function.update w.worker.doingMap t.timestamp none)
      (late : ¬ NoAccessAfterHandOver w'.trace) (nonempty : 0 < t.totalCount)
      (unsent : ∀ i : Nat, (i : Int) < t.totalCount → (outcomes i).goesOut = false)

theorem World.Turns.dispatches {w w₁ w' : World} {task : TaskPtr} {t t₁ : Task}
    {outcomes : Nat → SendOutcome} (turns : w.Turns task t w₁ t₁)
    (rest : w₁.Dispatches task t₁ outcomes w') : w.Dispatches task t outcomes w' := by
  cases rest with
  | waiting t' advances touches held live stamp total routes safe sent =>
      refine .waiting t' ⟨advances.inv, turns.acts.trans advances.acts⟩
        (turns.touches.trans touches) held live (stamp.trans turns.stamp)
        (total.trans turns.total) (routes.trans turns.routes)
        (fun before => safe (turns.safe before)) ?_
      rw [← turns.total]
      exact sent
  | failed advances touches gone routes late nonempty unsent =>
      refine .failed ⟨advances.inv, turns.acts.trans advances.acts⟩
        (turns.touches.trans touches) gone ?_ late ?_ ?_
      · rw [routes, turns.routes, turns.stamp]
      · exact turns.total ▸ nonempty
      · exact turns.total ▸ unsent

section turn
variable {w : World} {task : TaskPtr} {t t' : Task} {p p' : Ping} {k : Nat}
  {timer : Option Int32} {evs : List Event} {outcomes : Nat → SendOutcome}

theorem WorkerInv.turns (inv : WorkerInv (some task) w) (held : task ∈ doingTasks w.trace)
    (live : w.heap task = some t) (at_k : ∀ e ∈ evs, e.Local task k)
    (serving : (w.touchPing task k t' timer evs).Serving task t')
    (stamp : t'.timestamp = t.timestamp) (total : t'.totalCount = t.totalCount) :
    w.Turns task t (w.touchPing task k t' timer evs) t' where
  inv := inv.touch (fun a now => (Option.some.inj now).symm) held live at_k serving stamp
  acts := .touchPing held live at_k
  touches := touchPing_touches at_k
  held := by
    have same : doingTasks (evs ++ w.trace) = doingTasks w.trace := doingTasks_local at_k w.trace
    exact same.symm ▸ held
  live := Function.update_self ..
  stamp := stamp
  total := total
  routes := rfl
  safe := noAccess_local at_k (inv.not_handedOver held)

/-- The next entry has been started; the others are as they were. -/
theorem Task.Starting.next (starting : t.Starting outcomes k) (entry : t.pings[k]? = some p)
    (pings : t'.pings = t.pings.set k p') (started : p'.status ≠ .uninited)
    (doing : p'.status = .doing ↔ (outcomes k).goesOut = true)
    (short : t'.doneCount < t'.totalCount) : t'.Starting outcomes (k + 1) where
  before := by
    intro i q at_i below
    rw [pings] at at_i
    by_cases same : k = i
    · subst same
      rw [List.getElem?_set_self (List.getElem?_eq_some_iff.mp entry).1,
        Option.some.injEq] at at_i
      subst at_i
      exact ⟨started, doing⟩
    · rw [List.getElem?_set_ne same] at at_i
      exact starting.before i q at_i (by omega)
  after := by
    intro i q at_i above
    rw [pings, List.getElem?_set_ne (by omega)] at at_i
    exact starting.after i q at_i (by omega)
  short _ := short

/-- When the ping just closed was the last to be counted, no request went out. -/
theorem Task.Starting.unsent (starting : t.Starting outcomes k) (entry : t.pings[k]? = some p)
    (pings : t'.pings = t.pings.set k p') (fails : (outcomes k).goesOut = false)
    (all : ∀ q ∈ t'.pings, q.status.terminal = true) :
    k + 1 = t.pings.length ∧ ∀ i, i < t.pings.length → (outcomes i).goesOut = false := by
  have bound := (List.getElem?_eq_some_iff.mp entry).1
  have last : k + 1 = t.pings.length := by
    by_contra more
    have inside : k + 1 < t.pings.length := by omega
    have next : t.pings[k + 1]? = some t.pings[k + 1] := List.getElem?_eq_getElem inside
    have fresh := starting.after (k + 1) _ next (by omega)
    have still : t'.pings[k + 1]? = some t.pings[k + 1] := by
      rw [pings, List.getElem?_set_ne (by omega)]
      exact next
    have closed := all _ (List.mem_of_getElem? still)
    rw [fresh] at closed
    cases closed
  refine ⟨last, fun i inside => ?_⟩
  by_cases same : i = k
  · exact same ▸ fails
  · have at_i : t.pings[i]? = some t.pings[i] := List.getElem?_eq_getElem inside
    have still : t'.pings[i]? = some t.pings[i] := by
      rw [pings, List.getElem?_set_ne (by omega)]
      exact at_i
    have closed := all _ (List.mem_of_getElem? still)
    have doing := (starting.before i _ at_i (by omega)).2
    cases sent : (outcomes i).goesOut with
    | false => rfl
    | true =>
        rw [doing.mpr sent] at closed
        cases closed

/-- The loop has passed every ping. -/
theorem Task.Starting.underway (starting : t.Starting outcomes t.pings.length) : t.Underway where
  started := by
    intro q member
    obtain ⟨i, at_i⟩ := List.mem_iff_getElem?.mp member
    exact (starting.before i q at_i (List.getElem?_eq_some_iff.mp at_i).1).1
  waiting := starting.short

theorem World.Serving.all_terminal (serving : w.Serving task t)
    (all : t.doneCount ≥ t.totalCount) : ∀ q ∈ t.pings, q.status.terminal = true := by
  have bound : t.pings.countP (·.status.terminal) ≤ t.pings.length := List.countP_le_length
  have counted := serving.counted
  have total := serving.total
  exact List.countP_eq_length.mp (by omega)

variable (inv : WorkerInv (some task) w) (held : task ∈ doingTasks w.trace)
  (live : w.heap task = some t) (starting : t.Starting outcomes k)
include inv held live

include starting

/-- A turn whose request goes out. -/
theorem doTaskFrom_turn_sent (fuel : Nat) (inside : k < t.pings.length)
    (sent : (outcomes k).goesOut = true) :
    ∃ w₁ t₁, doTaskFrom task outcomes (fuel + 1) k w = doTaskFrom task outcomes fuel (k + 1) w₁ ∧
      w.Turns task t w₁ t₁ ∧ t₁.Starting outcomes (k + 1) ∧
      t₁.pings.length = t.pings.length := by
  have serving := inv.serving held live
  have total := serving.total
  have entry : t.pings[k]? = some t.pings[k] := List.getElem?_eq_getElem inside
  have served := serving.entry k _ entry
  have fresh := starting.after k _ entry (Nat.le_refl k)
  have short := starting.short (List.ne_nil_of_length_pos (by omega))
  have noLog := (served.agrees.of_uninited fresh).1
  obtain ⟨converts, goes⟩ := Bool.and_eq_true_iff.mp sent
  obtain ⟨evs, at_k, log, read, run⟩ := doTaskFrom_sent live outcomes fuel entry (by omega)
    served.parent converts goes
  refine ⟨_, _, run, inv.turns held live at_k (serving.change entry ?_ at_k rfl rfl rfl ?_)
    rfl rfl, starting.next entry (Task.pings_setPing ..) nofun (by simp [sent]) short, ?_⟩
  · rw [fresh]
    rfl
  · rw [log, noLog, readings_append]
    exact .doing _ rfl rfl rfl rfl (List.mem_append_left _ read)
  · rw [Task.pings_setPing, List.length_set]

/-- A turn whose request does not go out. -/
theorem doTaskFrom_turn_failed (fuel : Nat) (inside : k < t.pings.length)
    (fails : (outcomes k).goesOut = false) :
    ∃ w₁ t₁, doTaskFrom task outcomes (fuel + 1) k w =
        doTaskFrom task outcomes fuel (k + 1) (w₁.finish task t₁) ∧
      w.Turns task t w₁ t₁ ∧ t₁.pings.length = t.pings.length ∧
      (t₁.doneCount < t₁.totalCount → t₁.Starting outcomes (k + 1)) ∧
      (t₁.doneCount ≥ t₁.totalCount → k + 1 = t.pings.length ∧
        ∀ i, i < t.pings.length → (outcomes i).goesOut = false) := by
  have serving := inv.serving held live
  have total := serving.total
  have entry : t.pings[k]? = some t.pings[k] := List.getElem?_eq_getElem inside
  have served := serving.entry k _ entry
  have fresh := starting.after k _ entry (Nat.le_refl k)
  obtain ⟨noLog, unarmed⟩ := served.agrees.of_uninited fresh
  have isOpen : (t.pings[k]).status.terminal = false := by rw [fresh]; rfl
  have notBoth : ¬ ((outcomes k).converts = true ∧ (outcomes k).sent = true) := by
    intro both
    rw [SendOutcome.goesOut, both.1, both.2] at fails
    cases fails
  obtain ⟨sendtime, evs, at_k, log, run⟩ := doTaskFrom_failed live outcomes fuel entry
    (by omega) served.parent unarmed isOpen notBoth
  have closed : (w.touchPing task k (t.close k { t.pings[k] with
      worker := some w.worker.self, sendtime, status := .sendError }) none evs).Serving task
      (t.close k { t.pings[k] with
        worker := some w.worker.self, sendtime, status := .sendError }) := by
    refine serving.close entry isOpen rfl at_k rfl rfl rfl ?_
    rw [log, noLog]
    exact .sendError rfl
  refine ⟨_, _, run, inv.turns held live at_k closed rfl rfl, ?_, ?_, ?_⟩
  · rw [Task.pings_close, List.length_set]
  · exact starting.next entry (Task.pings_close ..) nofun (by simp [fails])
  · intro all
    exact starting.unsent entry (Task.pings_close ..) fails (closed.all_terminal all)

omit starting in
/-- The loop leaves a task that is under way. -/
theorem doTaskFrom_waiting (fuel : Nat) (starting : t.Starting outcomes t.pings.length) :
    ∃ w', doTaskFrom task outcomes (fuel + 1) t.pings.length w = .ok ((), w') ∧
      w.Dispatches task t outcomes w' := by
  have serving := inv.serving held live
  have total := serving.total
  have settled := inv.settle held live starting.underway
  refine ⟨_, doTaskFrom_end live outcomes fuel (by omega),
    .waiting t ⟨settled.log (by rfl), .log (by rfl)⟩ (.log (by rfl)) held live rfl rfl rfl
      ?_ ?_⟩
  · exact noAccess_log (inv.not_handedOver held) fun a touched => touched.symm
  · intro nonempty
    have short := starting.short (List.ne_nil_of_length_pos (by omega))
    have counted := serving.counted
    have some : t.pings.countP (·.status.terminal) < t.pings.length := by omega
    obtain ⟨i, p, entry, isOpen⟩ := Sequence.exists_open _ some
    have inside := (List.getElem?_eq_some_iff.mp entry).1
    obtain ⟨started, doing⟩ := starting.before i p entry inside
    have waiting : p.status = .doing := by
      cases status : p.status <;> simp_all [PingStatus.terminal]
    exact ⟨i, by omega, doing.mp waiting⟩

omit starting in
/-- The loop reads a task that its last turn has handed back. -/
theorem doTaskFrom_late (fuel : Nat) (all : t.doneCount = t.totalCount)
    (nonempty : 0 < t.totalCount)
    (unsent : ∀ i, i < t.pings.length → (outcomes i).goesOut = false) :
    ∃ w', doTaskFrom task outcomes (fuel + 1) t.pings.length (w.handBack task t) = .ok ((), w') ∧
      w.Dispatches task t outcomes w' := by
  have serving := inv.serving held live
  have total := serving.total
  have handed := inv.handBack held live all nonempty
  refine ⟨_, doTaskFrom_end (w := w.handBack task t) live outcomes fuel (by omega),
    .failed ⟨handed.log (by rfl),
      (World.Acts.handBack held live (inv.not_queued held)).trans (.log (by rfl))⟩
      (handBack_touches.trans (.log (by rfl))) (Finset.notMem_erase task _) rfl ?_ nonempty ?_⟩
  · intro safe
    exact safe.1 task rfl handedOver_handBack
  · intro i inside
    exact unsent i (by omega)

theorem doTaskFrom_dispatches (fuel : Nat) (fits : k ≤ t.pings.length)
    (enough : t.pings.length < k + fuel) :
    ∃ w', doTaskFrom task outcomes fuel k w = .ok ((), w') ∧
      w.Dispatches task t outcomes w' := by
  induction fuel generalizing k w t with
  | zero => omega
  | succ fuel ih =>
      cases Nat.lt_or_eq_of_le fits with
      | inl inside =>
          cases sent : (outcomes k).goesOut with
          | true =>
              obtain ⟨w₁, t₁, run, turns, next, length⟩ :=
                doTaskFrom_turn_sent inv held live starting fuel inside sent
              obtain ⟨w', rest, dispatches⟩ := ih turns.inv turns.held turns.live next
                (by omega) (by omega)
              exact ⟨w', run.trans rest, turns.dispatches dispatches⟩
          | false =>
              obtain ⟨w₁, t₁, run, turns, length, next, last⟩ :=
                doTaskFrom_turn_failed inv held live starting fuel inside sent
              rw [run, World.finish]
              split
              · rename_i complete
                obtain ⟨atEnd, unsent⟩ := last complete
                have serving := turns.inv.serving turns.held turns.live
                have total := serving.total
                have counted := serving.counted
                have bound : t₁.pings.countP (·.status.terminal) ≤ t₁.pings.length :=
                  List.countP_le_length
                obtain ⟨fuel, rfl⟩ : ∃ more, fuel = more + 1 := ⟨fuel - 1, by omega⟩
                rw [atEnd, ← length]
                obtain ⟨w', rest, dispatches⟩ := doTaskFrom_late turns.inv turns.held turns.live
                  fuel (by omega) (by omega) (length.symm ▸ unsent)
                exact ⟨w', rest, turns.dispatches dispatches⟩
              · obtain ⟨w', rest, dispatches⟩ := ih turns.inv turns.held turns.live
                  (next (by omega)) (by omega) (by omega)
                exact ⟨w', rest, turns.dispatches dispatches⟩
      | inr same =>
          subst same
          exact doTaskFrom_waiting inv held live fuel starting

end turn

/-- The runs of notifyEventHandler on a byte from the pipe. -/
inductive Notification (w : World) (now : UInt64) (outcomes : Nat → SendOutcome) : World → Prop
  | refused (task : TaskPtr) (rest : List TaskPtr) (t : Task)
      (popped : Sequence.popTail w.worker.taskQueue = some (task, rest))
      (live : w.heap task = some t) (fresh : t.Fresh task)
      (full : w.worker.doingCount ≥ DOING_TASK_CAPACITY) :
      Notification w now outcomes (w.refuse task rest t)
  | admitted (task : TaskPtr) (rest : List TaskPtr) (t : Task) (w' : World)
      (popped : Sequence.popTail w.worker.taskQueue = some (task, rest))
      (live : w.heap task = some t) (fresh : t.Fresh task)
      (room : ¬ w.worker.doingCount ≥ DOING_TASK_CAPACITY)
      (dispatches : (w.accept task rest t now).Dispatches task { t with timestamp := now }
        outcomes w') : Notification w now outcomes w'

section notify
variable {w w' : World} {now : UInt64} {outcomes : Nat → SendOutcome}

theorem notifyEventHandler_notification (now : UInt64) (outcomes : Nat → SendOutcome)
    (inv : WorkerInv none w) (byte : 0 < w.worker.notifyPipe) :
    ∃ w', notifyEventHandler now outcomes w = .ok ((), w') ∧
      Notification w now outcomes w' := by
  cases popped : Sequence.popTail w.worker.taskQueue with
  | none =>
      have pipe := inv.pipe
      rw [Sequence.popTail_eq_none.mp popped] at pipe
      simp only [List.length_nil] at pipe
      omega
  | some result =>
      obtain ⟨task, rest⟩ := result
      obtain ⟨notIn, _, _, _, _, gone, _, t, live, fresh, enqueued⟩ := inv.of_popped popped
      by_cases full : w.worker.doingCount ≥ DOING_TASK_CAPACITY
      · exact ⟨_, notifyEventHandler_full popped live full,
          .refused task rest t popped live fresh full⟩
      · have accepted : WorkerInv (some task) (w.accept task rest t now) :=
          inv.accept popped live full
        have here : (w.accept task rest t now).heap task = some { t with timestamp := now } :=
          Function.update_self ..
        have starting : Task.Starting outcomes 0 { t with timestamp := now } := by
          refine ⟨fun i p _ below => absurd below (Nat.not_lt_zero i), ?_, ?_⟩
          · intro i p entry _
            exact (fresh.entry i p entry).2.1
          · intro nonempty
            have total := fresh.total
            have length := List.length_pos_iff.mpr nonempty
            change 0 < t.pings.length at length
            change t.doneCount < t.totalCount
            rw [fresh.uncounted]
            omega
        have total := fresh.total
        obtain ⟨w', run, dispatches⟩ := doTaskFrom_dispatches accepted
          (Finset.mem_insert_self task _) here starting (t.totalCount.toNat + 1)
          (Nat.zero_le _) (by change t.pings.length < _; omega)
        refine ⟨w', ?_, .admitted task rest t w' popped live fresh full dispatches⟩
        rw [notifyEventHandler_room popped live full, doTask_eq here]
        exact run

theorem Notification.advances (inv : WorkerInv none w)
    (notification : Notification w now outcomes w') : w.Advances w' := by
  cases notification with
  | refused task rest t popped live fresh full =>
      obtain ⟨apart, _, _, _, _, gone, _⟩ := inv.of_popped popped
      exact ⟨inv.refuse popped live, .refuse popped gone live apart⟩
  | admitted task rest t w' popped live fresh room dispatches =>
      obtain ⟨_, _, _, _, _, gone, _⟩ := inv.of_popped popped
      have accepted : w.Acts (w.accept task rest t now) := .accept popped gone live
      cases dispatches with
      | waiting t' advances | failed advances =>
          exact ⟨advances.inv, accepted.trans advances.acts⟩

end notify
end AsyncPing
