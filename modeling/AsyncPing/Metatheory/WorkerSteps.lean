import AsyncPing.Metatheory.WorkerInvariant

/-!
Each change a handler makes keeps the invariant. A change concerns one task:
for every other task the trace reads as before, its timers and its object are
the same, so its stage is too. What remains is the stage of the task itself.
-/
namespace AsyncPing
open TaskWorker

/-- The same worker, further on. -/
structure World.Later (w w' : World) : Prop where
  self : w'.worker.self = w.worker.self
  pid : w'.worker.pid = w.worker.pid
  threadId : w'.worker.threadId = w.worker.threadId
  trace : w.trace <:+ w'.trace

/-- Further on, with nothing new about this task. -/
structure World.Keeps (w : World) (task : TaskPtr) (w' : World) : Prop extends w.Later w' where
  doing : task ∈ doingTasks w'.trace ↔ task ∈ doingTasks w.trace
  taskLog : taskLog task w'.trace = taskLog task w.trace
  pingLog : ∀ i, pingLog task i w'.trace = pingLog task i w.trace
  origin : origin task w'.trace = origin task w.trace
  timer : ∀ i, w'.worker.base (task, i) = w.worker.base (task, i)

/-- Further on, with nothing new about any other task. -/
structure World.Touches (w : World) (task : TaskPtr) (w' : World) : Prop where
  keeps : ∀ a, a ≠ task → w.Keeps a w'
  heap : ∀ a, a ≠ task → w'.heap a = w.heap a

section keeping
variable {w w' w'' : World} {task a : TaskPtr} {t : Task} {running running' : Option TaskPtr}

theorem World.Later.refl (w : World) : w.Later w := ⟨rfl, rfl, rfl, List.suffix_rfl⟩

theorem World.Later.trans (first : w.Later w') (second : w'.Later w'') : w.Later w'' :=
  ⟨second.self.trans first.self, second.pid.trans first.pid,
    second.threadId.trans first.threadId, first.trace.trans second.trace⟩

theorem World.Keeps.trans (first : w.Keeps a w') (second : w'.Keeps a w'') : w.Keeps a w'' :=
  ⟨first.toLater.trans second.toLater, second.doing.trans first.doing,
    second.taskLog.trans first.taskLog, fun i => (second.pingLog i).trans (first.pingLog i),
    second.origin.trans first.origin, fun i => (second.timer i).trans (first.timer i)⟩

theorem World.Touches.trans (first : w.Touches task w') (second : w'.Touches task w'') :
    w.Touches task w'' where
  keeps a other := (first.keeps a other).trans (second.keeps a other)
  heap a other := (second.heap a other).trans (first.heap a other)

theorem World.Later.request (later : w.Later w') (t : Task) (index : UInt16) :
    w'.worker.requestFor t index = w.worker.requestFor t index := by
  simp only [requestFor, getShortPid, later.pid, later.threadId]

theorem World.Later.clock (later : w.Later w') : readings w.trace <:+ readings w'.trace :=
  readings_suffix later.trace

theorem World.Keeps.of_concerns (evs : List Event) (later : w.Later w')
    (trace : w'.trace = evs ++ w.trace) (about : ∀ e ∈ evs, e.Concerns task) (other : a ≠ task)
    (timer : ∀ i, w'.worker.base (a, i) = w.worker.base (a, i)) : w.Keeps a w' where
  toLater := later
  doing := trace ▸ doingTasks_concerns other about w.trace
  taskLog := trace ▸ taskLog_concerns other about w.trace
  pingLog := trace ▸ fun i => pingLog_concerns other about i w.trace
  origin := trace ▸ origin_concerns other about w.trace
  timer := timer

theorem World.Serving.keep (keeps : w.Keeps task w') (serving : w.Serving task t) :
    w'.Serving task t where
  noError := serving.noError
  noCode := serving.noCode
  total := serving.total
  counted := serving.counted
  entry := by
    intro i p entry
    have served := serving.entry i p entry
    refine ⟨served.index, served.parent, ?_⟩
    rw [keeps.self, keeps.request, keeps.pingLog, keeps.timer]
    exact served.agrees.later keeps.clock
  outside := by
    intro i beyond
    rw [keeps.pingLog, keeps.timer]
    exact serving.outside i beyond
  source := by
    rw [keeps.origin]
    exact serving.source

theorem World.Unstarted.keep (keeps : w.Keeps task w') (unstarted : w.Unstarted task) :
    w'.Unstarted task := by
  intro i
  rw [keeps.pingLog, keeps.timer]
  exact unstarted i

theorem Lifecycle.keep {es : List TaskEvent} (life : Lifecycle running w task es)
    (keeps : w.Keeps task w') (heap : task ∈ doingTasks w.trace → w'.heap task = w.heap task)
    (apart : running' ≠ some task → running ≠ some task) : Lifecycle running' w' task es := by
  cases life with
  | idle gone unstarted => exact .idle (mt keeps.doing.mp gone) (unstarted.keep keeps)
  | doing t held live serving underway =>
      exact .doing t (keeps.doing.mpr held) ((heap held).trans live) (serving.keep keeps)
        fun away => underway (apart away)
  | refused t timers gone unstarted fresh enqueued unarmed =>
      exact .refused t timers (mt keeps.doing.mp gone) (unstarted.keep keeps) fresh
        (keeps.origin.trans enqueued) unarmed
  | returned t timers gone serving all some disarmed unarmed =>
      refine .returned t timers (mt keeps.doing.mp gone) (serving.keep keeps) all some ?_ unarmed
      intro i
      rw [keeps.timer]
      exact disarmed i

/-- The invariant after a change that concerns one task: the other tasks are
where they were, so what is left to show is about the task and the totals. -/
theorem WorkerInv.of_touches (inv : WorkerInv running w) (task : TaskPtr)
    (running' : Option TaskPtr) (touches : w.Touches task w')
    (only : ∀ a, running = some a → a = task)
    (life : Lifecycle running' w' task (taskLog task w'.trace))
    (queue : ∀ a ∈ w'.worker.taskQueue, a ≠ task → a ∈ w.worker.taskQueue)
    (queued : task ∈ w'.worker.taskQueue → taskLog task w'.trace = [] ∧
      ∃ t, w'.heap task = some t ∧ t.Fresh task ∧ origin task w'.trace = some t)
    (distinct : w'.worker.taskQueue.Nodup)
    (routes : ∀ ts a, w'.worker.doingMap ts = some a → a ≠ task →
      w.worker.doingMap ts = some a)
    (routed : ∀ ts, w'.worker.doingMap ts = some task →
      task ∈ doingTasks w'.trace ∧ ∃ t, w'.heap task = some t ∧ t.timestamp = ts)
    (count : w'.worker.doingCount = (doingTasks w'.trace).card)
    (capacity : w'.worker.doingCount ≤ DOING_TASK_CAPACITY)
    (pipe : w'.worker.notifyPipe = w'.worker.taskQueue.length)
    (audit : ∀ e ∈ w'.trace, e.Disciplined) : WorkerInv running' w' where
  queued := by
    intro a member
    by_cases same : a = task
    · subst same
      exact queued member
    · obtain ⟨log, t, live, fresh, enqueued⟩ := inv.queued a (queue a member same)
      have keeps := touches.keeps a same
      exact ⟨keeps.taskLog.trans log, t, (touches.heap a same).trans live, fresh,
        keeps.origin.trans enqueued⟩
  distinct := distinct
  task := by
    intro a
    by_cases same : a = task
    · subst same
      exact life
    · have keeps := touches.keeps a same
      rw [keeps.taskLog]
      exact (inv.task a).keep keeps (fun _ => touches.heap a same) fun _ now => same (only a now)
  routed := by
    intro ts a route
    by_cases same : a = task
    · subst same
      exact routed ts route
    · obtain ⟨held, t, live, stamp⟩ := inv.routed ts a (routes ts a route same)
      exact ⟨(touches.keeps a same).doing.mpr held, t, (touches.heap a same).trans live, stamp⟩
  count := count
  capacity := capacity
  pipe := pipe
  audit := audit

/-- The objects the worker does not hold may come and go. -/
theorem WorkerInv.heap_congr (inv : WorkerInv none w) {heap : TaskPtr → Option Task}
    {master : Master}
    (same : ∀ a, a ∈ w.worker.taskQueue ∨ a ∈ doingTasks w.trace → heap a = w.heap a) :
    WorkerInv none { w with heap, master } where
  queued := by
    intro a member
    obtain ⟨log, t, live, fresh, enqueued⟩ := inv.queued a member
    exact ⟨log, t, (same a (.inl member)).trans live, fresh, enqueued⟩
  distinct := inv.distinct
  task := by
    intro a
    have keeps : w.Keeps a { w with heap, master } :=
      ⟨⟨rfl, rfl, rfl, List.suffix_rfl⟩, .rfl, rfl, fun _ => rfl, rfl, fun _ => rfl⟩
    exact (inv.task a).keep keeps (fun held => same a (.inr held)) fun _ => nofun
  routed := by
    intro ts a route
    obtain ⟨held, t, live, stamp⟩ := inv.routed ts a route
    exact ⟨held, t, (same a (.inr held)).trans live, stamp⟩
  count := inv.count
  capacity := inv.capacity
  pipe := inv.pipe
  audit := inv.audit

/-- Reading or writing an object leaves the history as it is. -/
theorem World.Keeps.log {e : Event} (access : e.Accesses task) : w.Keeps a (w.log e) := by
  have later : w.Later (w.log e) := ⟨rfl, rfl, rfl, List.suffix_cons e w.trace⟩
  cases e with
  | accessTask _ | accessPing _ _ => exact ⟨later, .rfl, rfl, fun _ => rfl, rfl, fun _ => rfl⟩
  | enqueue _ _ | clock _ | eventDel _ _ | ping _ _ _ | task _ _ => exact access.elim

theorem World.Touches.log {e : Event} (access : e.Accesses task) : w.Touches task (w.log e) :=
  ⟨fun _ _ => .log access, fun _ _ => rfl⟩

theorem WorkerInv.log {e : Event} (inv : WorkerInv running w) (access : e.Accesses task) :
    WorkerInv running (w.log e) := by
  have keeps : ∀ a, w.Keeps a (w.log e) := fun a => .log access
  refine ⟨?_, inv.distinct, ?_, ?_, ?_, inv.capacity, inv.pipe, ?_⟩
  · intro a member
    obtain ⟨log, t, live, fresh, enqueued⟩ := inv.queued a member
    exact ⟨(keeps a).taskLog.trans log, t, live, fresh, (keeps a).origin.trans enqueued⟩
  · intro a
    rw [(keeps a).taskLog]
    exact (inv.task a).keep (keeps a) (fun _ => rfl) id
  · intro ts a route
    obtain ⟨held, object⟩ := inv.routed ts a route
    exact ⟨(keeps a).doing.mpr held, object⟩
  · have same : doingTasks (w.log e).trace = doingTasks w.trace :=
      Finset.ext fun a => (keeps a).doing
    rw [same]
    exact inv.count
  · refine inv.audit_append [e] (List.forall_mem_singleton.mpr ?_)
    cases e with
    | accessTask _ | accessPing _ _ => trivial
    | enqueue _ _ | clock _ | eventDel _ _ | ping _ _ _ | task _ _ => exact access.elim

end keeping

/-! ## One ping -/

section touch
variable {w : World} {task : TaskPtr} {t t' : Task} {i : Nat} {p p' : Ping}
  {running : Option TaskPtr} {timer : Option Int32} {evs : List Event}

theorem touchPing_later : w.Later (w.touchPing task i t timer evs) :=
  ⟨rfl, rfl, rfl, List.suffix_append evs w.trace⟩

theorem touchPing_timer {event : EventPtr} (other : event ≠ (task, i)) :
    (w.touchPing task i t timer evs).worker.base event = w.worker.base event :=
  Function.update_of_ne other ..

theorem touchPing_touches (at_i : ∀ e ∈ evs, e.Local task i) :
    w.Touches task (w.touchPing task i t timer evs) where
  keeps a other := by
    refine .of_concerns evs touchPing_later rfl (concerns_local at_i) other fun j => ?_
    exact touchPing_timer fun same => other (congrArg Prod.fst same)
  heap a other := Function.update_of_ne other ..

/-- Replacing one ping by another that agrees with the longer history. -/
theorem World.Serving.touch (done : Int) (serving : w.Serving task t)
    (entry : t.pings[i]? = some p) (at_i : ∀ e ∈ evs, e.Local task i)
    (index : p'.index = p.index) (parent : p'.parentTask = p.parentTask) (ip : p'.ip = p.ip)
    (counted : done = (t.pings.set i p').countP (·.status.terminal))
    (agrees : p'.Agrees w.worker.self (task, i) (w.worker.requestFor t p.index)
      (readings (evs ++ w.trace)) (pingLog task i evs ++ pingLog task i w.trace) timer) :
    (w.touchPing task i { t.setPing i p' with doneCount := done } timer evs).Serving task
      { t.setPing i p' with doneCount := done } := by
  have bound : i < t.pings.length := (List.getElem?_eq_some_iff.mp entry).1
  have pings : Task.pings { t.setPing i p' with doneCount := done } = t.pings.set i p' :=
    Task.pings_setPing t i p'
  have served := serving.entry i p entry
  refine ⟨serving.noError, serving.noCode, ?_, ?_, ?_, ?_, ?_⟩
  · rw [pings, List.length_set]
    exact serving.total
  · rw [pings]
    exact counted
  · intro j q at_j
    rw [pings] at at_j
    by_cases same : i = j
    · subst same
      rw [List.getElem?_set_self bound, Option.some.injEq] at at_j
      subst at_j
      refine ⟨index ▸ served.index, parent.trans served.parent, ?_⟩
      simp only [World.touchPing, Function.update_self, pingLog_local at_i, index]
      exact agrees
    · rw [List.getElem?_set_ne same] at at_j
      have other := serving.entry j q at_j
      refine ⟨other.index, other.parent, ?_⟩
      rw [touchPing_timer fun eq => same (congrArg Prod.snd eq).symm]
      simp only [World.touchPing, pingLog_local at_i, pingLog_local_other at_i
        (fun eq => same eq.2), List.nil_append]
      exact other.agrees.later (readings_suffix (List.suffix_append evs w.trace))
  · intro j beyond
    rw [pings, List.length_set] at beyond
    have apart : i ≠ j := by omega
    rw [touchPing_timer fun eq => apart (congrArg Prod.snd eq).symm]
    simp only [World.touchPing, pingLog_local at_i, pingLog_local_other at_i
      (fun eq => apart eq.2), List.nil_append]
    exact serving.outside j beyond
  · obtain ⟨t₀, enqueued, ips⟩ := serving.source
    refine ⟨t₀, (origin_local at_i task w.trace).trans enqueued, ?_⟩
    have same : t.pings.set i p = t.pings := by
      obtain ⟨_, rfl⟩ := List.getElem?_eq_some_iff.mp entry
      exact List.set_getElem_self bound
    rw [pings, List.map_set, ip, ← List.map_set, same, ips]

/-- Closing a ping that was open. -/
theorem World.Serving.close (serving : w.Serving task t) (entry : t.pings[i]? = some p)
    (isOpen : p.status.terminal = false) (isClosed : p'.status.terminal = true)
    (at_i : ∀ e ∈ evs, e.Local task i)
    (index : p'.index = p.index) (parent : p'.parentTask = p.parentTask) (ip : p'.ip = p.ip)
    (agrees : p'.Agrees w.worker.self (task, i) (w.worker.requestFor t p.index)
      (readings (evs ++ w.trace)) (pingLog task i evs ++ pingLog task i w.trace) timer) :
    (w.touchPing task i (t.close i p') timer evs).Serving task (t.close i p') := by
  refine serving.touch (t.doneCount + 1) entry at_i index parent ip ?_ agrees
  rw [Sequence.countP_set_closed (fun q : Ping => q.status.terminal) entry isOpen isClosed,
    serving.counted]
  rfl

/-- Changing a ping without closing it. -/
theorem World.Serving.change (serving : w.Serving task t) (entry : t.pings[i]? = some p)
    (same : p'.status.terminal = p.status.terminal) (at_i : ∀ e ∈ evs, e.Local task i)
    (index : p'.index = p.index) (parent : p'.parentTask = p.parentTask) (ip : p'.ip = p.ip)
    (agrees : p'.Agrees w.worker.self (task, i) (w.worker.requestFor t p.index)
      (readings (evs ++ w.trace)) (pingLog task i evs ++ pingLog task i w.trace) timer) :
    (w.touchPing task i (t.setPing i p') timer evs).Serving task (t.setPing i p') := by
  refine serving.touch t.doneCount entry at_i index parent ip ?_ agrees
  rw [Sequence.countP_set_same (fun q : Ping => q.status.terminal) entry same, serving.counted]

theorem WorkerInv.touch (inv : WorkerInv running w) (only : ∀ a, running = some a → a = task)
    (held : task ∈ doingTasks w.trace) (live : w.heap task = some t)
    (at_i : ∀ e ∈ evs, e.Local task i)
    (serving : (w.touchPing task i t' timer evs).Serving task t')
    (stamp : t'.timestamp = t.timestamp) :
    WorkerInv (some task) (w.touchPing task i t' timer evs) := by
  have sameLog : taskLog task (evs ++ w.trace) = [.admitted] :=
    (taskLog_local at_i task w.trace).trans ((inv.task task).of_doing held).1
  have sameDoing : doingTasks (evs ++ w.trace) = doingTasks w.trace :=
    doingTasks_local at_i w.trace
  have stillHeld : task ∈ doingTasks (evs ++ w.trace) := sameDoing ▸ held
  have here : Function.update w.heap task (some t') task = some t' := Function.update_self ..
  refine inv.of_touches task (some task) (touchPing_touches at_i) only ?_
    (fun a member _ => member) ?_
    inv.distinct (fun ts a route _ => route) ?_ ?_ inv.capacity inv.pipe ?_
  · rw [show (w.touchPing task i t' timer evs).trace = evs ++ w.trace from rfl, sameLog]
    exact .doing t' stillHeld here serving fun away => absurd rfl away
  · intro member
    exact absurd member (inv.not_queued held)
  · intro ts route
    obtain ⟨_, s, live', isStamp⟩ := inv.routed ts task route
    rw [live, Option.some.injEq] at live'
    subst live'
    exact ⟨stillHeld, t', here, stamp.trans isStamp⟩
  · change w.worker.doingCount = (doingTasks (evs ++ w.trace)).card
    rw [sameDoing]
    exact inv.count
  · exact inv.audit_append evs (disciplined_local at_i)

theorem WorkerInv.settle (inv : WorkerInv (some task) w) (held : task ∈ doingTasks w.trace)
    (live : w.heap task = some t) (underway : t.Underway) : WorkerInv none w := by
  have serving := inv.serving held live
  have log := ((inv.task task).of_doing held).1
  refine inv.of_touches task none
    ⟨fun a _ => ⟨.refl w, .rfl, rfl, fun _ => rfl, rfl, fun _ => rfl⟩, fun a _ => rfl⟩
    (fun a now => (Option.some.inj now).symm) ?_ (fun a member _ => member)
    (inv.queued task) inv.distinct (fun ts a route _ => route) (fun ts => inv.routed ts task)
    inv.count inv.capacity inv.pipe inv.audit
  rw [log]
  exact .doing t held live serving fun _ => underway

/-! ## Whole tasks -/

/-- Once every ping is counted no timer is left. -/
theorem World.Serving.disarmed (serving : w.Serving task t) (all : t.doneCount = t.totalCount)
    (i : Nat) : w.worker.base (task, i) = none := by
  cases lt_or_ge i t.pings.length with
  | inl inside =>
      have entry : t.pings[i]? = some t.pings[i] := List.getElem?_eq_getElem inside
      refine (serving.entry i _ entry).agrees.unarmed fun waiting => ?_
      have short := Sequence.countP_lt_length (fun q : Ping => q.status.terminal) entry
        (by rw [waiting]; rfl)
      have counted := serving.counted
      have total := serving.total
      omega
  | inr beyond => exact (serving.outside i beyond).2

theorem handBack_touches : w.Touches task (w.handBack task t) where
  keeps a other := by
    refine .of_concerns [_, _, _] ⟨rfl, rfl, rfl, List.suffix_append [_, _, _] w.trace⟩
      rfl ?_ other fun i => rfl
    simp [Event.Concerns]
  heap a other := rfl

theorem handBack_taskLog : taskLog task (w.handBack task t).trace =
    .sendToMaster (some t) (fun i => w.worker.base (task, i)) :: .complete ::
      taskLog task w.trace := by
  simp only [World.handBack, taskLog, if_true]

theorem handedOver_handBack : HandedOver task (w.handBack task t).trace := by
  refine ⟨.sendToMaster (some t) fun i => w.worker.base (task, i), ?_, rfl⟩
  rw [handBack_taskLog]
  exact List.mem_cons_self ..

/-- Handing back a task of which the last ping was just closed. -/
theorem World.finish_heap (w : World) (task : TaskPtr) (t : Task) :
    (w.finish task t).heap = w.heap := by
  rw [World.finish]
  split <;> rfl

theorem finish_touches : w.Touches task (w.finish task t) := by
  rw [World.finish]
  split
  · exact handBack_touches
  · exact ⟨fun a _ => ⟨.refl w, .rfl, rfl, fun _ => rfl, rfl, fun _ => rfl⟩, fun _ _ => rfl⟩

theorem WorkerInv.handBack (inv : WorkerInv (some task) w) (held : task ∈ doingTasks w.trace)
    (live : w.heap task = some t) (all : t.doneCount = t.totalCount) (some : 0 < t.totalCount) :
    WorkerInv none (w.handBack task t) := by
  have serving := inv.serving held live
  have log := ((inv.task task).of_doing held).1
  have gone : task ∉ (doingTasks w.trace).erase task := Finset.notMem_erase task _
  have disarmed := serving.disarmed all
  have counted : ((doingTasks w.trace).erase task).card + 1 = (doingTasks w.trace).card :=
    Finset.card_erase_add_one held
  refine inv.of_touches task none handBack_touches (fun a now => (Option.some.inj now).symm) ?_
    (fun a member _ => member) ?_ inv.distinct ?_ ?_ ?_ ?_ inv.pipe ?_
  · rw [handBack_taskLog, log]
    refine .returned t _ gone ?_ all some disarmed disarmed
    refine ⟨serving.noError, serving.noCode, serving.total, serving.counted, ?_, ?_, ?_⟩
    · intro i p entry
      exact ⟨(serving.entry i p entry).index, (serving.entry i p entry).parent,
        (serving.entry i p entry).agrees⟩
    · exact serving.outside
    · exact serving.source
  · intro member
    exact absurd member (inv.not_queued held)
  · intro ts a route _
    simp only [World.handBack, Function.update_apply] at route
    split at route
    · cases route
    · exact route
  · intro ts route
    simp only [World.handBack, Function.update_apply] at route
    split at route
    · cases route
    · rename_i elsewhere
      obtain ⟨_, s, live', isStamp⟩ := inv.routed ts task route
      rw [live, Option.some.injEq] at live'
      subst live'
      exact absurd isStamp.symm elsewhere
  · have before := inv.count
    change w.worker.doingCount - 1 = ((doingTasks w.trace).erase task).card
    omega
  · have before := inv.capacity
    change w.worker.doingCount - 1 ≤ DOING_TASK_CAPACITY
    omega
  · exact inv.audit_append [_, _, _] (by simpa [Event.Disciplined] using disarmed)

/-- After a ping was closed by a timeout or a reply. -/
theorem WorkerInv.finish (inv : WorkerInv (some task) w) (held : task ∈ doingTasks w.trace)
    (live : w.heap task = some t) (started : ∀ p ∈ t.pings, p.status ≠ .uninited)
    (nonempty : 0 < t.totalCount) : WorkerInv none (w.finish task t) := by
  have serving := inv.serving held live
  rw [World.finish]
  split
  · rename_i complete
    have bound : t.pings.countP (·.status.terminal) ≤ t.pings.length := List.countP_le_length
    have counted := serving.counted
    have total := serving.total
    exact inv.handBack held live (by omega) nonempty
  · exact inv.settle held live ⟨started, fun _ => by omega⟩

end touch

/-! ## Admission -/

section admission
variable {w : World} {task : TaskPtr} {t : Task} {rest : List TaskPtr} {now : UInt64}

theorem refuse_taskLog : taskLog task (w.refuse task rest t).trace =
    .sendToMaster (some { t with prepareError := true, preErrorCode := 1005 })
      (fun i => w.worker.base (task, i)) :: taskLog task w.trace := by
  simp only [World.refuse, taskLog, if_true]

theorem refuse_touches : w.Touches task (w.refuse task rest t) where
  keeps a other := by
    refine .of_concerns [_, _] ⟨rfl, rfl, rfl, List.suffix_append [_, _] w.trace⟩
      rfl ?_ other fun i => rfl
    simp [Event.Concerns]
  heap a other := Function.update_of_ne other ..

theorem accept_touches : w.Touches task (w.accept task rest t now) where
  keeps a other := by
    refine .of_concerns [_, _, _] ⟨rfl, rfl, rfl, List.suffix_append [_, _, _] w.trace⟩
      rfl ?_ other fun i => rfl
    simp [Event.Concerns]
  heap a other := Function.update_of_ne other ..

theorem Task.Fresh.unclosed (fresh : t.Fresh task) :
    t.pings.countP (·.status.terminal) = 0 := by
  refine List.countP_eq_zero.mpr fun p member => ?_
  obtain ⟨i, entry⟩ := List.mem_iff_getElem?.mp member
  rw [(fresh.entry i p entry).2.1]
  decide

/-- What a fresh task agrees with before any of its pings is started. -/
theorem Task.Fresh.serving (fresh : t.Fresh task) (unstarted : w.Unstarted task)
    (enqueued : origin task w.trace = some t) :
    w.Serving task { t with timestamp := now } where
  noError := fresh.noError
  noCode := fresh.noCode
  total := fresh.total
  counted := by
    rw [show t.doneCount = 0 from fresh.uncounted]
    exact_mod_cast fresh.unclosed.symm
  entry := by
    intro i p entry
    obtain ⟨index, status, parent⟩ := fresh.entry i p entry
    refine ⟨index, parent, ?_⟩
    rw [(unstarted i).1, (unstarted i).2]
    exact .uninited status
  outside i _ := unstarted i
  source := ⟨t, enqueued, rfl⟩

variable (inv : WorkerInv none w)
  (popped : Sequence.popTail w.worker.taskQueue = some (task, rest))
  (live : w.heap task = some t)
include inv popped

theorem WorkerInv.of_popped : task ∉ rest ∧ rest.Nodup ∧
    (∀ a ∈ rest, a ∈ w.worker.taskQueue) ∧ w.worker.notifyPipe - 1 = rest.length ∧
    taskLog task w.trace = [] ∧ task ∉ doingTasks w.trace ∧ w.Unstarted task ∧
    ∃ t, w.heap task = some t ∧ t.Fresh task ∧ origin task w.trace = some t := by
  have split := Sequence.popTail_eq_some.mp popped
  have distinct := inv.distinct
  have pipe := inv.pipe
  rw [split, List.nodup_append] at distinct
  rw [split, List.length_append, List.length_singleton] at pipe
  have member : task ∈ w.worker.taskQueue := by simp [split]
  obtain ⟨log, object⟩ := inv.queued task member
  have idle := log ▸ inv.task task
  refine ⟨fun again => distinct.2.2 task again task (List.mem_singleton_self task) rfl,
    distinct.1, ?_, by omega, log, idle.of_nil.1, idle.of_nil.2, object⟩
  intro a inRest
  simp [split, inRest]

include live

theorem WorkerInv.refuse : WorkerInv none (w.refuse task rest t) := by
  obtain ⟨notIn, distinct, subset, pipe, log, gone, unstarted, s, live', fresh, enqueued⟩ :=
    inv.of_popped popped
  rw [live, Option.some.injEq] at live'
  subst live'
  have stillGone : task ∉ (doingTasks w.trace).erase task := Finset.notMem_erase task _
  have same : (doingTasks w.trace).erase task = doingTasks w.trace :=
    Finset.erase_eq_of_notMem gone
  have unarmed : ∀ i, w.worker.base (task, i) = none := fun i => (unstarted i).2
  refine inv.of_touches task none refuse_touches nofun ?_
    (fun a member _ => subset a member) ?_ distinct (fun ts a route _ => route) ?_ ?_
    inv.capacity pipe ?_
  · rw [refuse_taskLog, log]
    exact .refused t _ stillGone unstarted fresh enqueued unarmed
  · intro member
    exact absurd member notIn
  · intro ts route
    exact absurd (inv.routed ts task route).1 gone
  · change w.worker.doingCount = ((doingTasks w.trace).erase task).card
    rw [same]
    exact inv.count
  · exact inv.audit_append [_, _] (by simpa [Event.Disciplined] using unarmed)

theorem WorkerInv.accept (room : ¬ w.worker.doingCount ≥ DOING_TASK_CAPACITY) :
    WorkerInv (some task) (w.accept task rest t now) := by
  obtain ⟨notIn, distinct, subset, pipe, log, gone, unstarted, s, live', fresh, enqueued⟩ :=
    inv.of_popped popped
  rw [live, Option.some.injEq] at live'
  subst live'
  have held : task ∈ insert task (doingTasks w.trace) := Finset.mem_insert_self task _
  have here : Function.update w.heap task (some { t with timestamp := now }) task =
      some { t with timestamp := now } := Function.update_self ..
  refine inv.of_touches task (some task) accept_touches nofun ?_
    (fun a member _ => subset a member) ?_ distinct ?_ ?_ ?_ ?_ pipe ?_
  · have newLog : taskLog task (w.accept task rest t now).trace = [.admitted] := by
      simp only [World.accept, taskLog, if_true, log]
    rw [newLog]
    refine .doing _ held here (fresh.serving ?_ ?_) fun away => absurd rfl away
    · exact unstarted
    · exact enqueued
  · intro member
    exact absurd member notIn
  · intro ts a route other
    simp only [World.accept, Function.update_apply] at route
    split at route
    · -- the reading is taken by an earlier task, or now routes to this one
      rename_i stamp
      subst stamp
      cases taken : w.worker.doingMap ts with
      | none =>
          rw [taken] at route
          exact absurd (Option.some.inj route).symm other
      | some b =>
          rw [taken] at route
          exact route
    · exact route
  · intro ts route
    simp only [World.accept, Function.update_apply] at route
    split at route
    · rename_i stamp
      exact ⟨held, _, here, stamp.symm⟩
    · exact absurd (inv.routed ts task route).1 gone
  · have before := inv.count
    change w.worker.doingCount + 1 = (insert task (doingTasks w.trace)).card
    rw [Finset.card_insert_of_notMem gone]
    omega
  · change w.worker.doingCount + 1 ≤ DOING_TASK_CAPACITY
    omega
  · exact inv.audit_append [_, _, _] (by simp [Event.Disciplined])

omit inv popped live in
/-- A new task enters the queue. -/
theorem WorkerInv.submit (inv : WorkerInv none w) (free : w.heap task = none)
    (fresh : t.Fresh task) : WorkerInv none (w.submit task t) := by
  have gone : task ∉ doingTasks w.trace := by
    intro held
    obtain ⟨_, s, live, _⟩ := (inv.task task).of_doing held
    rw [free] at live
    cases live
  have notIn : task ∉ w.worker.taskQueue := by
    intro member
    obtain ⟨_, s, live, _⟩ := inv.queued task member
    rw [free] at live
    cases live
  have here : Function.update w.heap task (some t) task = some t := Function.update_self ..
  have newLog : taskLog task (w.submit task t).trace = [] := if_pos rfl
  have newPingLog : ∀ i, pingLog task i (w.submit task t).trace = [] := fun i => if_pos rfl
  refine inv.of_touches task none ⟨?_, ?_⟩ nofun ?_ ?_ (fun _ => ⟨newLog, t, here, fresh, ?_⟩)
    (inv.distinct.cons notIn) (fun ts a route _ => route) ?_ inv.count inv.capacity ?_ ?_
  · intro a other
    refine .of_concerns [_] ⟨rfl, rfl, rfl, List.suffix_cons _ w.trace⟩ rfl ?_ other fun i => rfl
    simp [Event.Concerns]
  · intro a other
    exact Function.update_of_ne other ..
  · rw [newLog]
    exact .idle gone fun i => ⟨newPingLog i, (inv.task task).disarmed gone i⟩
  · intro a member other
    exact (List.mem_cons.mp member).resolve_left other
  · exact if_pos rfl
  · intro ts route
    exact absurd (inv.routed ts task route).1 gone
  · change w.worker.notifyPipe + 1 = w.worker.taskQueue.length + 1
    rw [inv.pipe]
  · exact inv.audit_append [_] (by simp [Event.Disciplined])

end admission
end AsyncPing
