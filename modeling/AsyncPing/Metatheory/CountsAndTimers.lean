import AsyncPing.Metatheory.WorkerRuns

/-!
The books of a TaskWorker: the counter of each task against its pings, the
timers against the pings that wait, and the number of admitted tasks against
the capacity. Each holds between any two handlers of any run.
-/
namespace AsyncPing
open TaskWorker

def TaskEvent.completes : TaskEvent → Bool
  | .complete => true
  | .admitted | .sendToMaster _ _ => false

/-- How often onComplete was called for the object now at this address. -/
def completions (a : TaskPtr) (trace : List Event) : Nat :=
  (taskLog a trace).countP TaskEvent.completes

section stages
variable {w w' : World} {a : TaskPtr} {t t' : Task}

theorem Task.Fresh.pings_uninited (fresh : t.Fresh a) :
    ∀ p ∈ t.pings, p.status.terminal = false := by
  intro p member
  obtain ⟨i, entry⟩ := List.mem_iff_getElem?.mp member
  rw [(fresh.entry i p entry).2.1]
  rfl

theorem World.Stage.counted (stage : w.Stage a t) :
    t.doneCount = t.pings.countP (·.status.terminal) ∧ t.doneCount ≤ t.totalCount ∧
      t.totalCount = t.pings.length := by
  have bound : t.pings.countP (·.status.terminal) ≤ t.pings.length := List.countP_le_length
  cases stage with
  | queued _ _ fresh _ =>
      have none := fresh.unclosed
      have uncounted := fresh.uncounted
      have total := fresh.total
      omega
  | doing _ _ serving _ | returned _ _ _ serving _ _ =>
      have counted := serving.counted
      have total := serving.total
      omega
  | refused _ t₀ _ _ fresh marked _ =>
      have none := fresh.unclosed
      have uncounted := fresh.uncounted
      have total := fresh.total
      subst marked
      change t₀.doneCount = (t₀.pings.countP (·.status.terminal) : Nat) ∧
        t₀.doneCount ≤ t₀.totalCount ∧ t₀.totalCount = t₀.pings.length
      change t₀.pings.countP (·.status.terminal) ≤ t₀.pings.length at bound
      omega

/-- A task is completed when its counter has reached a positive total. -/
theorem World.Stage.completions_eq (stage : w.Stage a t) :
    completions a w.trace = if t.doneCount = t.totalCount ∧ 0 < t.totalCount then 1 else 0 := by
  have counted := stage.counted
  cases stage with
  | queued _ log fresh _ =>
      have uncounted := fresh.uncounted
      rw [completions, log, if_neg (by omega)]
      rfl
  | doing _ log serving underway =>
      have short : ¬ (t.doneCount = t.totalCount ∧ 0 < t.totalCount) := by
        rintro ⟨all, nonempty⟩
        have waiting := underway.waiting (List.ne_nil_of_length_pos (by omega))
        omega
      rw [completions, log, if_neg short]
      rfl
  | refused _ t₀ _ log fresh marked _ =>
      have uncounted : t.doneCount = 0 := marked ▸ fresh.uncounted
      rw [completions, log, if_neg (by omega)]
      rfl
  | returned _ _ log _ all some =>
      rw [completions, log, if_pos ⟨all, some⟩]
      rfl

theorem World.RunInv.completions_le (inv : w.RunInv) (a : TaskPtr) :
    completions a w.trace ≤ 1 := by
  have life := inv.worker.task a
  rw [completions]
  cases log : taskLog a w.trace with
  | nil => exact Nat.zero_le 1
  | cons e es =>
      rw [log] at life
      cases life <;> exact Nat.le_of_ble_eq_true rfl

/-- The history of a terminal ping can grow no more. -/
theorem Ping.Agrees.settled {self self' : Nat} {event event' : EventPtr}
    {request request' : EchoRequest} {clock clock' : List UInt64} {p p' : Ping}
    {log log' : List PingEvent} {timer timer' : Option Int32}
    (before : p.Agrees self event request clock log timer)
    (after : p'.Agrees self' event' request' clock' log' timer')
    (terminal : p.status.terminal = true) (grown : log <:+ log') : p'.status = p.status := by
  obtain ⟨more, longer⟩ := grown
  cases before with
  | uninited status | doing _ status =>
      rw [status] at terminal
      cases terminal
  | sendError status | success _ _ status | timeout _ status =>
      -- the two histories have their oldest events in common
      cases after <;> rcases more with _ | ⟨_, _ | ⟨_, _ | ⟨_, _⟩⟩⟩ <;> simp_all

/-- A started ping belongs to a task that was admitted. -/
theorem World.Stage.serving_of_started (stage : w.Stage a t) {i : Nat}
    (started : pingLog a i w.trace ≠ []) : w.Serving a t := by
  cases stage with
  | queued _ _ _ unstarted | refused _ _ _ _ _ _ unstarted =>
      exact absurd (unstarted i).1 started
  | doing _ _ serving | returned _ _ _ serving => exact serving

theorem World.Stage.terminal_started (stage : w.Stage a t) {i : Nat} {p : Ping}
    (entry : t.pings[i]? = some p) (terminal : p.status.terminal = true) :
    w.Serving a t ∧ pingLog a i w.trace ≠ [] := by
  have member := List.mem_of_getElem? entry
  have serving : w.Serving a t := by
    cases stage with
    | queued _ _ fresh =>
        rw [fresh.pings_uninited p member] at terminal
        cases terminal
    | refused _ t₀ _ _ fresh marked =>
        subst marked
        rw [fresh.pings_uninited p member] at terminal
        cases terminal
    | doing _ _ serving | returned _ _ _ serving => exact serving
  refine ⟨serving, fun unstarted => ?_⟩
  have agrees := (serving.entry i p entry).agrees
  rw [unstarted] at agrees
  rw [agrees.of_nil] at terminal
  cases terminal

/-- While the address holds the same object, its number of pings stays. -/
theorem World.Stage.total_eq (stage : w.Stage a t) (later : w'.Stage a t')
    (same : origin a w'.trace = origin a w.trace) :
    t'.pings.length = t.pings.length ∧ t'.totalCount = t.totalCount := by
  obtain ⟨t₀, enqueued, ips⟩ := stage.source
  obtain ⟨t₁, enqueued', ips'⟩ := later.source
  rw [same, enqueued, Option.some.injEq] at enqueued'
  subst enqueued'
  have lengths := congrArg List.length (ips'.symm.trans ips)
  simp only [List.length_map] at lengths
  have total := stage.counted.2.2
  have total' := later.counted.2.2
  omega

end stages

/-! ## The counter of a task -/

/-- `doneCount` counts the terminal pings, which stay terminal, and onComplete
is called in the move in which it reaches a positive total. -/
structure World.CountsExact (s : World) : Prop where
  counted : ∀ a t, s.heap a = some t →
    t.doneCount = t.pings.countP (·.status.terminal) ∧ t.doneCount ≤ t.totalCount
  settled : ∀ s' a t t' (i : Nat) p, workerSystem.Runs WorkerMove.InRange s s' →
    incarnation a s'.trace = incarnation a s.trace →
    s.heap a = some t → s'.heap a = some t' →
    t.pings[i]? = some p → p.status.terminal = true →
    ∃ p', t'.pings[i]? = some p' ∧ p'.status = p.status
  completes : ∀ (l : WorkerMove) s' a t t', l.enabled s → l.InRange s → l.serve s = .ok s' →
    incarnation a s'.trace = incarnation a s.trace →
    s.heap a = some t → s'.heap a = some t' →
    completions a s'.trace = completions a s.trace +
      if t.doneCount < t.totalCount ∧ t'.doneCount = t'.totalCount then 1 else 0
  once : ∀ a, completions a s.trace ≤ 1

theorem doneCount_exact (s : World) (reached : workerSystem.Reachable WorkerMove.InRange s) :
    s.CountsExact where
  counted a t live := by
    have counted := ((World.RunInv.of_reachable reached).of_live live).counted
    exact ⟨counted.1, counted.2.1⟩
  settled s' a t t' i p run same live live' entry terminal := by
    have stage := (World.RunInv.of_reachable reached).of_live live
    have stage' := (World.runInv_after reached run).of_live live'
    obtain ⟨_, pings, source⟩ := histories_grow (World.trace_grows reached run) same
    obtain ⟨serving, started⟩ := stage.terminal_started entry terminal
    have serving' := stage'.serving_of_started fun none =>
      started (List.suffix_nil.mp (none ▸ pings i))
    have bound := (List.getElem?_eq_some_iff.mp entry).1
    have inside : i < t'.pings.length := (stage.total_eq stage' source).1.symm ▸ bound
    have entry' : t'.pings[i]? = some t'.pings[i] := List.getElem?_eq_getElem inside
    exact ⟨_, entry', (serving.entry i p entry).agrees.settled
      (serving'.entry i _ entry').agrees terminal (pings i)⟩
  completes l s' a t t' offered inRange served same live live' := by
    have run : workerSystem.Runs WorkerMove.InRange s s' :=
      .step l (.refl s) offered inRange served
    have stage := (World.RunInv.of_reachable reached).of_live live
    have inv' := World.runInv_after reached run
    have stage' := inv'.of_live live'
    obtain ⟨tasks, _, source⟩ := histories_grow (World.trace_grows reached run) same
    have total := (stage.total_eq stage' source).2
    have kept : completions a s.trace ≤ completions a s'.trace :=
      tasks.sublist.countP_le
    have counted := stage.counted
    have counted' := stage'.counted
    have before := stage.completions_eq
    have after := stage'.completions_eq
    split at before <;> split at after <;> split <;> omega
  once a := (World.RunInv.of_reachable reached).completions_le a

theorem doneCount_exact_waiting : Sample.waiting.CountsExact :=
  doneCount_exact Sample.waiting Sample.waiting_reachable

/-! ## Timers -/

/-- The timers of an admitted task are those of its waiting pings. They are
cancelled only while armed, and a task is handed over without any. -/
structure World.TimersDisciplined (s : World) : Prop where
  armed : ∀ a ∈ doingTasks s.trace, ∃ t, s.heap a = some t ∧
    ∀ (i : Nat) p, t.pings[i]? = some p → p.status ≠ .uninited ∧
      ((s.worker.base (a, i)).isSome = true ↔ p.status = .doing) ∧
      (p.status = .doing → p.timeoutEvent = some (a, i))
  cancelled : ∀ event armed, Event.eventDel event armed ∈ s.trace → armed = true
  handedOver : ∀ a contents timers, Event.task a (.sendToMaster contents timers) ∈ s.trace →
    ∀ i, timers i = none
  disarmed : ∀ a, a ∉ doingTasks s.trace → ∀ i, s.worker.base (a, i) = none
  defined : ∀ l : WorkerMove, l.enabled s → l.InRange s → l.serve s ≠ .error .nullEvent

theorem timer_discipline (s : World) (reached : workerSystem.Reachable WorkerMove.InRange s) :
    s.TimersDisciplined where
  armed a held := by
    have inv := World.RunInv.of_reachable reached
    obtain ⟨_, t, live, serving, underway⟩ := inv.worker.of_doing held
    refine ⟨t, live, fun i p entry => ?_⟩
    have agrees := (serving.entry i p entry).agrees
    refine ⟨underway.started p (List.mem_of_getElem? entry), agrees.armed_iff, fun waiting => ?_⟩
    obtain ⟨_, _, _, _, timer, _⟩ := agrees.of_doing waiting
    exact timer
  cancelled event armed member :=
    (World.RunInv.of_reachable reached).worker.audit _ member
  handedOver a contents timers member :=
    ((World.RunInv.of_reachable reached).worker.audit _ member).2
  disarmed a gone := ((World.RunInv.of_reachable reached).worker.task a).disarmed gone
  defined l offered inRange := by
    obtain ⟨s', served⟩ := (World.RunInv.of_reachable reached).worker.progress offered inRange
    rw [served]
    exact nofun

theorem timer_discipline_waiting : Sample.waiting.TimersDisciplined :=
  timer_discipline Sample.waiting Sample.waiting_reachable

/-! ## Admission -/

/-- Handed back once, refused, and never started. -/
structure World.Refused (s : World) (a : TaskPtr) (t : Task) : Prop where
  once : ∃ timers, taskLog a s.trace =
    [.sendToMaster (some { t with prepareError := true, preErrorCode := 1005 }) timers]
  unstarted : ∀ i, pingLog a i s.trace = []
  unrouted : ∀ ts, s.worker.doingMap ts ≠ some a

structure World.AdmissionCounted (s : World) : Prop where
  count : s.worker.doingCount = (doingTasks s.trace).card
  bounds : 0 ≤ s.worker.doingCount ∧ s.worker.doingCount ≤ DOING_TASK_CAPACITY
  refuses : ∀ now outcomes a rest, (WorkerMove.notified now outcomes).enabled s →
    Sequence.popTail s.worker.taskQueue = some (a, rest) →
    s.worker.doingCount ≥ DOING_TASK_CAPACITY →
    ∃ t s', s.heap a = some t ∧ (WorkerMove.notified now outcomes).serve s = .ok s' ∧
      s'.heap = Function.update s.heap a
        (some { t with prepareError := true, preErrorCode := 1005 }) ∧
      s'.worker = { s.worker with notifyPipe := s.worker.notifyPipe - 1, taskQueue := rest } ∧
      s'.master = s.master.enqueueResponse a ∧
      ∀ s'', workerSystem.Runs WorkerMove.InRange s' s'' →
        incarnation a s''.trace = incarnation a s'.trace → s''.Refused a t

/-- A task that was handed back without being admitted stays so. -/
theorem World.RunInv.refused_later {s s' : World} {a : TaskPtr} {t : Task}
    {timers : Nat → Option Int32} (inv : s'.RunInv)
    (log : taskLog a s.trace =
      [.sendToMaster (some { t with prepareError := true, preErrorCode := 1005 }) timers])
    (grown : taskLog a s.trace <:+ taskLog a s'.trace) : s'.Refused a t := by
  have life := inv.worker.task a
  rw [log] at grown
  cases later : taskLog a s'.trace with
  | nil =>
      rw [later] at grown
      cases List.suffix_nil.mp grown
  | cons e es =>
      rw [later] at grown life
      have unrouted : a ∉ doingTasks s'.trace → ∀ ts, s'.worker.doingMap ts ≠ some a :=
        fun gone ts route => gone (inv.worker.routed ts a route).1
      cases life with
      | doing | returned =>
          have oldest := grown.getLast nofun
          simp at oldest
      | refused t₀ timers' gone unstarted =>
          have same := grown.eq_of_length rfl
          rw [← same] at later
          exact ⟨⟨timers, later⟩, fun i => (unstarted i).1, unrouted gone⟩

theorem admission_accounting (s : World)
    (reached : workerSystem.Reachable WorkerMove.InRange s) : s.AdmissionCounted where
  count := (World.RunInv.of_reachable reached).worker.count
  bounds := by
    have inv := (World.RunInv.of_reachable reached).worker
    have count := inv.count
    exact ⟨by omega, inv.capacity⟩
  refuses now outcomes a rest offered popped full := by
    have inv := World.RunInv.of_reachable reached
    obtain ⟨_, _, _, _, log, _, _, t, live, _⟩ := inv.worker.of_popped popped
    have served : (WorkerMove.notified now outcomes).serve s = .ok (s.refuse a rest t) := by
      rw [WorkerMove.serve, notifyEventHandler_full popped live full]
      rfl
    refine ⟨t, _, live, served, rfl, rfl, rfl, fun s'' run same => ?_⟩
    have reached' : workerSystem.Reachable WorkerMove.InRange (s.refuse a rest t) :=
      reached.extend (.step (.notified now outcomes) (.refl s) offered trivial served)
    have grown := (histories_grow (World.trace_grows reached' run) same).1
    have refused : taskLog a (s.refuse a rest t).trace =
        [.sendToMaster (some { t with prepareError := true, preErrorCode := 1005 })
          fun i => s.worker.base (a, i)] := by
      rw [refuse_taskLog, log]
    exact (World.runInv_after reached' run).refused_later refused grown

theorem admission_accounting_waiting : Sample.waiting.AdmissionCounted :=
  admission_accounting Sample.waiting Sample.waiting_reachable

end AsyncPing
