import AsyncPing.Metatheory.WorkerRuns

/-!
From a packet to a ping. A reply is routed by the timestamp of an admission: the
map from timestamps to tasks never reaches a task that is gone, and it reaches
the right one as long as no two admitted tasks have the same timestamp. What an
arbitrary packet can do is settled by one comparison: an index equal to the
number of pings passes the check and leaves the array.
-/
namespace AsyncPing
open TaskWorker

/-! ## No dangling entries -/

structure World.RoutesHeld (s : World) : Prop where
  entry : ∀ ts a, s.worker.doingMap ts = some a →
    a ∈ doingTasks s.trace ∧ ¬ HandedOver a s.trace ∧
      ∃ t, s.heap a = some t ∧ t.timestamp = ts
  alive : ∀ timestamp seq index now a,
    onReceive timestamp seq index now s ≠ .error (.deadTask a)

theorem doingMap_never_dangles (s : World)
    (reached : workerSystem.Reachable WorkerMove.InRange s) : s.RoutesHeld where
  entry ts a route := by
    have inv := (World.RunInv.of_reachable reached).worker
    obtain ⟨held, object⟩ := inv.routed ts a route
    exact ⟨held, inv.not_handedOver held, object⟩
  alive timestamp seq index now a fault := by
    have inv := (World.RunInv.of_reachable reached).worker
    have reception := onReceive_reception inv timestamp seq index now
    rw [fault] at reception
    cases reception

theorem doingMap_never_dangles_waiting : Sample.waiting.RoutesHeld :=
  doingMap_never_dangles Sample.waiting Sample.waiting_reachable

/-! ## Attribution -/

/-- The map finds every admitted task under its own timestamp. -/
def World.Routed (w : World) : Prop :=
  ∀ a ∈ doingTasks w.trace, ∀ t, w.heap a = some t →
    w.worker.doingMap t.timestamp = some a

/-- A task that finds room is admitted at a reading no admitted task has. -/
def WorkerMove.FreshStamp (w : World) : WorkerMove → Prop
  | notified now _ => w.worker.doingCount < DOING_TASK_CAPACITY → w.worker.doingMap now = none
  | request _ _ _ _ | datagram _ _ _ _ | expired _ _ | deleted _ => True

/-- The reply to the request of a waiting ping closes that ping and no other. -/
def World.Attributes (s : World) : Prop :=
  ∀ a ∈ doingTasks s.trace, ∀ t, s.heap a = some t →
    ∀ (i : Nat) p, t.pings[i]? = some p → p.status = .doing →
      ∃ request sendtime, pingLog a i s.trace = [.send request sendtime, .start] ∧
        request.timestamp = t.timestamp ∧ request.index.toNat = i ∧
        ∀ seq now, ∃ s', onReceive request.timestamp seq request.index now s = .ok ((), s') ∧
          s'.heap = Function.update s.heap a (some { t with
            doneCount := t.doneCount + 1
            pingArray := some (t.pings.set i
              { p with status := .success, recvtime := now.toInt64 }) })

section routed
variable {w w' : World} {task : TaskPtr} {t t' : Task} {i : Nat} {timer : Option Int32}
  {evs : List Event}

/-- A closed ping in full: one entry and the counter change. -/
theorem Task.close_eq (t : Task) {p p' : Ping} (entry : t.pings[i]? = some p) :
    t.close i p' = { t with
      doneCount := t.doneCount + 1, pingArray := some (t.pings.set i p') } := by
  cases array : t.pingArray with
  | none => simp [Task.pings, array] at entry
  | some pings => simp [Task.close, Task.setPing, Task.pings, array]

theorem World.Routed.touchPing (routed : w.Routed) (live : w.heap task = some t)
    (at_i : ∀ e ∈ evs, e.Local task i) (stamp : t'.timestamp = t.timestamp) :
    (w.touchPing task i t' timer evs).Routed := by
  intro a held s live'
  have doing : doingTasks (evs ++ w.trace) = doingTasks w.trace := doingTasks_local at_i w.trace
  have held' : a ∈ doingTasks w.trace := doing ▸ held
  by_cases same : a = task
  · subst same
    change Function.update w.heap a (some t') a = some s at live'
    rw [Function.update_self, Option.some.injEq] at live'
    subst live'
    exact stamp ▸ routed a held' t live
  · exact routed a held' s ((Function.update_of_ne same ..).symm.trans live')

/-- Handing back a task frees its own timestamp only. -/
theorem World.Routed.handBack (routed : w.Routed) (held : task ∈ doingTasks w.trace)
    (live : w.heap task = some t) : (w.handBack task t).Routed := by
  intro a held' s live'
  obtain ⟨other, still⟩ := Finset.mem_erase.mp held'
  have route := routed a still s live'
  have own := routed task held t live
  have apart : s.timestamp ≠ t.timestamp := by
    intro same
    rw [same, own, Option.some.injEq] at route
    exact other route.symm
  exact (Function.update_of_ne apart ..).trans route

theorem World.Routed.finish (routed : w.Routed) (held : task ∈ doingTasks w.trace)
    (live : w.heap task = some t) : (w.finish task t).Routed := by
  rw [World.finish]
  split
  · exact routed.handBack held live
  · exact routed

theorem World.Routed.closes {p' : Ping} (routed : w.Routed)
    (held : task ∈ doingTasks w.trace) (live : w.heap task = some t)
    (at_i : ∀ e ∈ evs, e.Local task i) :
    ((w.touchPing task i (t.close i p') none evs).finish task (t.close i p')).Routed := by
  have doing : doingTasks (evs ++ w.trace) = doingTasks w.trace := doingTasks_local at_i w.trace
  refine World.Routed.finish (routed.touchPing live at_i rfl) ?_ (Function.update_self ..)
  exact doing.symm ▸ held

theorem Notification.routed {now : UInt64} {outcomes : Nat → SendOutcome} (routed : w.Routed)
    (inv : WorkerInv none w) (stamp : w.worker.doingCount < DOING_TASK_CAPACITY →
      w.worker.doingMap now = none)
    (notification : Notification w now outcomes w') : w'.Routed := by
  cases notification with
  | refused task rest t popped live fresh full =>
      obtain ⟨_, _, _, _, _, gone, _⟩ := inv.of_popped popped
      intro a held s live'
      obtain ⟨other, still⟩ := Finset.mem_erase.mp held
      exact routed a still s ((Function.update_of_ne other ..).symm.trans live')
  | admitted task rest t w' popped live fresh room dispatches =>
      have free := stamp (by omega)
      have route : ∀ ts, (w.accept task rest t now).worker.doingMap ts =
          Function.update w.worker.doingMap now (some task) ts := by
        intro ts
        simp only [World.accept, free, Option.getD_none]
      -- the reading was free, so the entries of the other tasks stay
      have others (touches : (w.accept task rest t now).Touches task w') : ∀ a, a ≠ task →
          a ∈ doingTasks w'.trace → ∀ s, w'.heap a = some s →
          s.timestamp ≠ now ∧ w.worker.doingMap s.timestamp = some a := by
        intro a other held s live'
        have both := accept_touches.trans touches
        have found := routed a ((both.keeps a other).doing.mp held) s
          ((both.heap a other).symm.trans live')
        refine ⟨fun same => ?_, found⟩
        rw [same, free] at found
        cases found
      cases dispatches with
      | waiting t' advances touches held live' same total routes safe sent =>
          intro a held' s live''
          rw [routes, route]
          by_cases other : a = task
          · subst other
            rw [live', Option.some.injEq] at live''
            rw [← live'', same]
            exact Function.update_self ..
          · obtain ⟨apart, found⟩ := others touches a other held' s live''
            exact (Function.update_of_ne apart ..).trans found
      | failed advances touches gone' routes late nonempty unsent =>
          intro a held' s live''
          have other : a ≠ task := fun same => gone' (same ▸ held')
          obtain ⟨apart, found⟩ := others touches a other held' s live''
          rw [routes]
          refine (Function.update_of_ne apart ..).trans ?_
          rw [route]
          exact (Function.update_of_ne apart ..).trans found

theorem World.Routed.step {l : WorkerMove} (inv : w.RunInv) (routed : w.Routed)
    (stamp : l.FreshStamp w) (moved : w.Moved l w') : w'.Routed := by
  cases moved with
  | request task raw fuel body t free accepted =>
      intro a held s live
      have other : a ≠ task := by
        intro same
        subst same
        have still : a ∈ doingTasks w.trace := held
        obtain ⟨_, s, live', _⟩ := inv.worker.of_doing still
        rw [free] at live'
        cases live'
      exact routed a held s ((Function.update_of_ne other ..).symm.trans live)
  | notified now outcomes w' notification => exact notification.routed routed inv.worker stamp
  | datagram timestamp seq index now w' reception =>
      cases reception with
      | unknown | overflow | duplicate => exact routed
      | success task t p found held live entry waiting armed =>
          exact routed.closes held live (receiveEvents_local _ _ _)
  | expired task i w' armed fired =>
      obtain ⟨held, t, p, live, entry, waiting⟩ := inv.worker.waiting_of_armed armed
      rw [fire_eq inv.worker armed live entry, Except.ok.injEq, Prod.mk.injEq] at fired
      obtain ⟨-, rfl⟩ := fired
      exact routed.closes held live (timeoutEvents_local _ _)
  | deleted task member =>
      intro a held s live
      have other : a ≠ task := by
        intro same
        subst same
        exact (inv.responses a member).free (.inr held)
      exact routed a held s ((Function.update_of_ne other ..).symm.trans live)

end routed

/-- With distinct timestamps every reply closes the ping it answers. -/
theorem replies_attributed (s : World)
    (reached : workerSystem.Reachable WorkerMove.FreshStamp s) : s.Attributes := by
  have both : s.RunInv ∧ s.Routed := by
    refine Machine.Reachable.invariant (I := fun s => s.RunInv ∧ s.Routed) reached
      (fun s₀ boots => ⟨.of_boots boots, ?_⟩) ?_
    · intro a held
      rw [boots.2.1] at held
      exact absurd held (Finset.notMem_empty a)
    · rintro r l r' ⟨inv, routed⟩ offered stamp served
      exact ⟨inv.step offered served, routed.step inv stamp (inv.worker.moved offered served)⟩
  obtain ⟨inv, routed⟩ := both
  intro a held t live i p entry waiting
  have found := routed a held t live
  have serving := inv.worker.serving held live
  have served := serving.entry i p entry
  obtain ⟨sendtime, log, _, _, timer, _⟩ := served.agrees.of_doing waiting
  refine ⟨_, sendtime, log, rfl, served.index, fun seq now => ?_⟩
  have inside := (List.getElem?_eq_some_iff.mp entry).1
  have total := serving.total
  have index : (s.worker.requestFor t p.index).index.toNat = i := served.index
  have passes : ¬ ((s.worker.requestFor t p.index).index.toNat : Int) > t.totalCount := by omega
  refine ⟨_, onReceive_doing found live passes (index.symm ▸ entry) waiting ?_, ?_⟩
  · rw [index]
    exact timer
  · rw [World.finish_heap, index, ← t.close_eq entry]
    rfl

instance (w : World) (l : WorkerMove) : Decidable (l.FreshStamp w) :=
  match l with
  | .notified now _ =>
      inferInstanceAs (Decidable (w.worker.doingCount < DOING_TASK_CAPACITY →
        w.worker.doingMap now = none))
  | .request _ _ _ _ | .datagram _ _ _ _ | .expired _ _ | .deleted _ =>
      inferInstanceAs (Decidable True)

theorem replies_attributed_waiting : Sample.waiting.Attributes :=
  replies_attributed Sample.waiting
    ⟨Sample.boot, Sample.boots, Machine.runs_of_follow Sample.moves _ _ rfl⟩

namespace Sample

/-- Two requests for one server each, both admitted at time 50. -/
def collidingMoves : List WorkerMove :=
  [.request 7 raw 2 (body ["192.0.2.1"]), .notified 50 (sends 60),
    .request 8 raw 2 (body ["192.0.2.2"]), .notified 50 (sends 61)]

def colliding : World := (workerSystem.follow WorkerMove.InRange boot collidingMoves).get rfl

theorem colliding_reachable : workerSystem.Reachable WorkerMove.InRange colliding :=
  Machine.reachable_of_follow boots collidingMoves rfl

/-- The reply for the second request leaves the second task as it was. -/
theorem colliding_misrouted :
    (onReceive 50 0 0 90 colliding).toOption.map (fun r => (r.2.heap 8).map Task.doneCount) =
      some (some 0) := rfl

end Sample

theorem replies_not_attributed :
    ¬ ∀ s, workerSystem.Reachable WorkerMove.InRange s → s.Attributes := by
  intro attributed
  obtain ⟨request, sendtime, _, stamp, index, closes⟩ :=
    attributed Sample.colliding Sample.colliding_reachable 8 (by decide) _ rfl 0 _ rfl rfl
  obtain ⟨s', run, heap⟩ := closes 0 90
  have stamped : request.timestamp = 50 := stamp
  have first : request.index = 0 := UInt16.toNat_inj.mp index
  have misrouted := Sample.colliding_misrouted
  rw [stamped, first] at run
  rw [run] at misrouted
  have counted := congrFun heap 8
  rw [Function.update_self] at counted
  simp only [Except.toOption, Option.map_some, counted] at misrouted
  cases misrouted

/-! ## Arbitrary packets -/

/-- One waiting ping of one task is closed by a reply, and nothing else changes;
the task is handed back exactly when all its pings are then terminal. -/
structure World.ClosesOne (s s' : World) (a : TaskPtr) (t : Task) (i : Nat) (p : Ping)
    (now : UInt64) : Prop where
  live : s.heap a = some t
  entry : t.pings[i]? = some p
  waiting : p.status = .doing
  heap : s'.heap = Function.update s.heap a (some { t with
    doneCount := t.doneCount + 1
    pingArray := some (t.pings.set i { p with status := .success, recvtime := now.toInt64 }) })
  handsBack : HandedOver a s'.trace ↔
    ∀ q ∈ t.pings.set i { p with status := .success, recvtime := now.toInt64 },
      q.status.terminal = true
  back : HandedOver a s'.trace → s'.master = s.master.enqueueResponse a ∧
    s'.worker.doingCount = s.worker.doingCount - 1
  stays : ¬ HandedOver a s'.trace → s'.master = s.master ∧
    s'.worker.doingCount = s.worker.doingCount ∧ s'.worker.doingMap = s.worker.doingMap

/-- The handler returns, reaches only entries of the task found that exist, and
changes nothing or closes one waiting ping. -/
def World.Withstands (s : World) (timestamp now : UInt64) (result : Except Fault (Unit × World)) :
    Prop :=
  ∃ s' evs, result = .ok ((), s') ∧ s'.trace = evs ++ s.trace ∧
    (∀ a i, Event.accessPing a i ∈ evs → s.worker.doingMap timestamp = some a ∧
      ∃ t, s.heap a = some t ∧ (i : Int) < t.totalCount) ∧
    ((s'.heap = s.heap ∧ s'.worker = s.worker ∧ s'.master = s.master) ∨
      ∃ a t i p, s.ClosesOne s' a t i p now)

section packets
variable {s : World} {task : TaskPtr} {t : Task} {i : Nat} {p : Ping} {now : UInt64}

theorem finish_trace (s : World) (task : TaskPtr) (t : Task) :
    ∃ evs, (s.finish task t).trace = evs ++ s.trace ∧ ∀ a i, Event.accessPing a i ∉ evs := by
  rw [World.finish]
  split
  · exact ⟨[_, _, _], rfl, by simp⟩
  · exact ⟨[], rfl, by simp⟩

/-- A task is complete when its last waiting ping is closed. -/
theorem World.Serving.complete_iff (serving : s.Serving task t) (p' : Ping)
    (entry : t.pings[i]? = some p) (isOpen : p.status.terminal = false)
    (isClosed : p'.status.terminal = true) :
    (t.close i p').doneCount ≥ (t.close i p').totalCount ↔
      ∀ q ∈ t.pings.set i p', q.status.terminal = true := by
  have counted := serving.counted
  have total := serving.total
  have closed := Sequence.countP_set_closed (fun q : Ping => q.status.terminal) entry isOpen
    isClosed
  have bound : (t.pings.set i p').countP (·.status.terminal) ≤ (t.pings.set i p').length :=
    List.countP_le_length
  have length : (t.pings.set i p').length = t.pings.length := List.length_set
  rw [← List.countP_eq_length (p := fun q : Ping => q.status.terminal)]
  change t.doneCount + 1 ≥ t.totalCount ↔ _
  omega

theorem World.RunInv.closesOne (inv : s.RunInv) (held : task ∈ doingTasks s.trace)
    (live : s.heap task = some t) (entry : t.pings[i]? = some p) (waiting : p.status = .doing) :
    let t' := t.close i { p with status := .success, recvtime := now.toInt64 }
    s.ClosesOne ((s.touchPing task i t' none (receiveEvents task i now true)).finish task t')
      task t i p now := by
  intro t'
  have serving := inv.worker.serving held live
  have at_i := receiveEvents_local task i now
  have complete := serving.complete_iff
    { p with status := .success, recvtime := now.toInt64 } entry (by rw [waiting]; rfl) rfl
  have handed : HandedOver task ((s.touchPing task i t' none
      (receiveEvents task i now true)).finish task t').trace ↔
      t'.doneCount ≥ t'.totalCount := by
    rw [World.finish]
    split
    · rename_i all
      exact iff_of_true handedOver_handBack all
    · rename_i short
      refine iff_of_false ?_ short
      rintro ⟨e, member, hands⟩
      have sameLog := taskLog_local at_i task s.trace
      exact inv.worker.not_handedOver held ⟨e, sameLog ▸ member, hands⟩
  refine ⟨live, entry, waiting, ?_, handed.trans complete, ?_, ?_⟩
  · rw [World.finish_heap, ← t.close_eq entry]
    rfl
  · intro now
    rw [World.finish, if_pos (handed.mp now)]
    exact ⟨rfl, rfl⟩
  · intro not
    rw [World.finish, if_neg (mt handed.mpr not)]
    exact ⟨rfl, rfl, rfl⟩

/-- A run of onReceive that does not leave the array is withstood. -/
theorem Reception.withstands {s' : World} {timestamp : UInt64} {index : UInt16} (inv : s.RunInv)
    (reception : Reception s timestamp index now (.ok ((), s'))) :
    s.Withstands timestamp now (.ok ((), s')) := by
  cases reception with
  | unknown absent => exact ⟨s, [], rfl, rfl, by simp, .inl ⟨rfl, rfl, rfl⟩⟩
  | overflow task t found held live beyond =>
      exact ⟨_, [_], rfl, rfl, by simp, .inl ⟨rfl, rfl, rfl⟩⟩
  | duplicate task t p found held live entry isDone =>
      refine ⟨_, [_, _], rfl, rfl, ?_, .inl ⟨rfl, rfl, rfl⟩⟩
      have bound := (List.getElem?_eq_some_iff.mp entry).1
      have total := (inv.of_live live).total
      intro a i member
      simp only [List.mem_cons, Event.accessPing.injEq, reduceCtorEq, List.not_mem_nil,
        or_false] at member
      obtain ⟨rfl, rfl⟩ := member
      exact ⟨found, t, live, by omega⟩
  | success task t p found held live entry waiting armed =>
      obtain ⟨evs, trace, quiet⟩ := finish_trace (s.touchPing task index.toNat
        (t.close index.toNat { p with status := .success, recvtime := now.toInt64 }) none
        (receiveEvents task index.toNat now true)) task
        (t.close index.toNat { p with status := .success, recvtime := now.toInt64 })
      refine ⟨_, evs ++ receiveEvents task index.toNat now true, rfl, ?_, ?_,
        .inr ⟨task, t, index.toNat, p, inv.closesOne held live entry waiting⟩⟩
      · rw [trace, List.append_assoc]
        rfl
      · have bound := (List.getElem?_eq_some_iff.mp entry).1
        have total := (inv.of_live live).total
        intro a i member
        cases List.mem_append.mp member with
        | inl late => exact absurd late (quiet a i)
        | inr early =>
            simp only [receiveEvents, List.mem_cons, Event.accessPing.injEq, reduceCtorEq,
              List.not_mem_nil, or_false, false_or, or_self] at early
            obtain ⟨rfl, rfl⟩ := early
            exact ⟨found, t, live, by omega⟩

end packets

/-- A packet is withstood unless its index is the number of pings of the task found. -/
theorem onReceive_withstands_iff (s : World)
    (reached : workerSystem.Reachable (fun _ _ => True) s) (timestamp : UInt64)
    (seq index : UInt16) (now : UInt64) :
    s.Withstands timestamp now (onReceive timestamp seq index now s) ↔
      ¬ ∃ t, s.found timestamp = some t ∧ (index.toNat : Int) = t.totalCount := by
  have inv := World.RunInv.of_reachable reached
  have reception := onReceive_reception inv.worker timestamp seq index now
  constructor
  · rintro ⟨s', evs, run, _⟩ ⟨t, found, atEnd⟩
    obtain ⟨task, route, live⟩ := Option.bind_eq_some_iff.mp found
    have total := (inv.of_live live).total
    have noEntry : t.pings[index.toNat]? = none := List.getElem?_eq_none_iff.mpr (by omega)
    rw [onReceive_outOfRange route live (by omega) noEntry] at run
    cases run
  · intro inside
    cases result : onReceive timestamp seq index now s with
    | error fault =>
        rw [result] at reception
        cases reception with
        | outOfRange task t found held live atEnd =>
            have reaches : s.found timestamp = some t := by
              rw [World.found, found]
              exact live
            exact absurd ⟨t, reaches, atEnd⟩ inside
    | ok outcome =>
        rw [result] at reception
        obtain ⟨⟨⟩, s'⟩ := outcome
        exact reception.withstands inv

theorem onReceive_withstands_iff_waiting :
    Sample.waiting.Withstands 50 91 (onReceive 50 0 0 91 Sample.waiting) ↔
      ¬ ∃ t, Sample.waiting.found 50 = some t ∧ ((0 : UInt16).toNat : Int) = t.totalCount :=
  onReceive_withstands_iff Sample.waiting (Sample.waiting_reachable.mono fun _ _ _ => trivial)
    50 0 0 91

/-- Two pings, and a packet for position 2. -/
theorem onReceive_not_withstands :
    ¬ ∀ s, workerSystem.Reachable (fun _ _ => True) s → ∀ timestamp seq index now,
      s.Withstands timestamp now (onReceive timestamp seq index now s) := by
  intro withstands
  obtain ⟨s', evs, run, -⟩ := withstands Sample.waiting
    (Sample.waiting_reachable.mono fun _ _ _ => trivial) 50 0 2 91
  have outside : onReceive 50 0 2 91 Sample.waiting = .error (.pingOutOfRange 7 2) := rfl
  rw [outside] at run
  cases run

end AsyncPing
