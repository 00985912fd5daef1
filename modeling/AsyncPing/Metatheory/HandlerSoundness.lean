import AsyncPing.Metatheory.Custody

/-!
Every handler, started where the invariant holds, runs through or stops at the
one place where it may leave the ping array. The possible runs of a handler are
listed with what each does to the world; each keeps the invariant and the
custody of tasks.
-/
namespace AsyncPing
open TaskWorker

theorem World.touchPing_setTimer (w : World) (task : TaskPtr) (i : Nat) (t : Task)
    (tv timer : Option Int32) (evs : List Event) :
    (w.setTimer (task, i) tv).touchPing task i t timer evs = w.touchPing task i t timer evs := by
  simp only [World.touchPing, World.setTimer, Function.update_idem]

section
variable {w : World} {task : TaskPtr} {t : Task} {i : Nat} {p p' : Ping} {evs : List Event}

theorem WorkerInv.not_handedOver {running : Option TaskPtr} (inv : WorkerInv running w)
    (held : task ∈ doingTasks w.trace) : ¬ HandedOver task w.trace := by
  refine not_handedOver_of_taskLog ((inv.task task).of_doing held).1 ?_
  intro e member
  rw [List.mem_singleton.mp member]
  rfl

theorem noAccess_log (held : ¬ HandedOver task w.trace) {e : Event}
    (only : ∀ a, e.Accesses a → a = task) (safe : NoAccessAfterHandOver w.trace) :
    NoAccessAfterHandOver (w.log e).trace :=
  ⟨fun a touched => only a touched ▸ held, safe⟩

theorem noAccess_handBack (held : ¬ HandedOver task w.trace)
    (safe : NoAccessAfterHandOver w.trace) :
    NoAccessAfterHandOver (w.handBack task t).trace := by
  refine ⟨fun a touched => touched.elim, ?_, fun a touched => touched.elim, safe⟩
  rintro a same ⟨e, member, hands⟩
  subst same
  rw [taskLog, if_pos rfl, List.mem_cons] at member
  cases member with
  | inl same =>
      subst same
      cases hands
  | inr earlier => exact held ⟨e, earlier, hands⟩

theorem noAccess_finish (held : ¬ HandedOver task w.trace)
    (safe : NoAccessAfterHandOver w.trace) :
    NoAccessAfterHandOver (w.finish task t).trace := by
  rw [World.finish]
  split
  · exact noAccess_handBack held safe
  · exact safe

/-- What a handler that runs through leaves behind. -/
structure World.Advances (w w' : World) : Prop where
  inv : WorkerInv none w'
  acts : w.Acts w'

/-- Closing a waiting ping between two other handlers. -/
theorem WorkerInv.closes (inv : WorkerInv none w) (held : task ∈ doingTasks w.trace)
    (live : w.heap task = some t) (entry : t.pings[i]? = some p) (waiting : p.status = .doing)
    (isClosed : p'.status.terminal = true) (at_i : ∀ e ∈ evs, e.Local task i)
    (index : p'.index = p.index) (parent : p'.parentTask = p.parentTask) (ip : p'.ip = p.ip)
    (agrees : p'.Agrees w.worker.self (task, i) (w.worker.requestFor t p.index)
      (readings (evs ++ w.trace)) (pingLog task i evs ++ pingLog task i w.trace) none) :
    let w' := (w.touchPing task i (t.close i p') none evs).finish task (t.close i p')
    w.Advances w' ∧ (NoAccessAfterHandOver w.trace → NoAccessAfterHandOver w'.trace) := by
  have serving := inv.serving held live
  have underway := inv.underway held live
  have isOpen : p.status.terminal = false := by rw [waiting]; rfl
  have closed := serving.close entry isOpen isClosed at_i index parent ip agrees
  have touched := inv.touch nofun held live at_i closed rfl
  have sameDoing : doingTasks (evs ++ w.trace) = doingTasks w.trace :=
    doingTasks_local at_i w.trace
  have stillHeld : task ∈ doingTasks (evs ++ w.trace) := sameDoing ▸ held
  have here : Function.update w.heap task (some (t.close i p')) task = some (t.close i p') :=
    Function.update_self ..
  refine ⟨⟨touched.finish stillHeld here ?_ ?_, ?_⟩, ?_⟩
  · intro q member
    rw [Task.pings_close] at member
    cases List.mem_or_eq_of_mem_set member with
    | inl before => exact underway.started q before
    | inr same =>
        subst same
        intro fresh
        rw [fresh] at isClosed
        cases isClosed
  · have bound := (List.getElem?_eq_some_iff.mp entry).1
    change 0 < t.totalCount
    rw [serving.total]
    omega
  · exact (World.Acts.touchPing held live at_i).trans
      (.finish stillHeld here (touched.not_queued stillHeld))
  · intro safe
    exact noAccess_finish (touched.not_handedOver stillHeld)
      (noAccess_local at_i (inv.not_handedOver held) safe)

end

/-! ## Replies -/

/-- The runs of onReceive. -/
inductive Reception (w : World) (timestamp : UInt64) (index : UInt16) (now : UInt64) :
    Except Fault (Unit × World) → Prop
  | unknown (absent : w.worker.doingMap timestamp = none) :
      Reception w timestamp index now (.ok ((), w))
  | overflow (task : TaskPtr) (t : Task) (found : w.worker.doingMap timestamp = some task)
      (held : task ∈ doingTasks w.trace) (live : w.heap task = some t)
      (beyond : (index.toNat : Int) > t.totalCount) :
      Reception w timestamp index now (.ok ((), w.log (.accessTask task)))
  | outOfRange (task : TaskPtr) (t : Task) (found : w.worker.doingMap timestamp = some task)
      (held : task ∈ doingTasks w.trace) (live : w.heap task = some t)
      (atEnd : (index.toNat : Int) = t.totalCount) :
      Reception w timestamp index now (.error (.pingOutOfRange task index.toNat))
  | duplicate (task : TaskPtr) (t : Task) (p : Ping)
      (found : w.worker.doingMap timestamp = some task)
      (held : task ∈ doingTasks w.trace) (live : w.heap task = some t)
      (entry : t.pings[index.toNat]? = some p) (isDone : p.status.terminal = true) :
      Reception w timestamp index now
        (.ok ((), (w.log (.accessTask task)).log (.accessPing task index.toNat)))
  | success (task : TaskPtr) (t : Task) (p : Ping)
      (found : w.worker.doingMap timestamp = some task)
      (held : task ∈ doingTasks w.trace) (live : w.heap task = some t)
      (entry : t.pings[index.toNat]? = some p) (waiting : p.status = .doing)
      (armed : (w.worker.base (task, index.toNat)).isSome = true) :
      Reception w timestamp index now
        (.ok ((), (w.touchPing task index.toNat
          (t.close index.toNat { p with status := .success, recvtime := now.toInt64 }) none
          (receiveEvents task index.toNat now true)).finish task
          (t.close index.toNat { p with status := .success, recvtime := now.toInt64 })))

section receive
variable {w : World} (inv : WorkerInv none w) (timestamp : UInt64) (seq index : UInt16)
  (now : UInt64)
include inv

theorem onReceive_reception :
    Reception w timestamp index now (onReceive timestamp seq index now w) := by
  cases found : w.worker.doingMap timestamp with
  | none =>
      rw [onReceive_unknown found]
      exact .unknown found
  | some task =>
      obtain ⟨held, -⟩ := inv.routed timestamp task found
      obtain ⟨log, t, live, serving, underway⟩ := inv.of_doing held
      by_cases beyond : (index.toNat : Int) > t.totalCount
      · rw [onReceive_overflow found live beyond]
        exact .overflow task t found held live beyond
      · cases entry : t.pings[index.toNat]? with
        | none =>
            have outside := List.getElem?_eq_none_iff.mp entry
            have total := serving.total
            rw [onReceive_outOfRange found live beyond entry]
            exact .outOfRange task t found held live (by omega)
        | some p =>
            have served := serving.entry index.toNat p entry
            cases isDone : p.status.terminal with
            | true =>
                rw [onReceive_duplicate found live beyond entry isDone]
                exact .duplicate task t p found held live entry isDone
            | false =>
                have waiting : p.status = .doing := by
                  have started := underway.started p (List.mem_of_getElem? entry)
                  cases status : p.status <;> simp_all [PingStatus.terminal]
                obtain ⟨sendtime, _, armed, _, timer, _⟩ := served.agrees.of_doing waiting
                have isArmed : (w.worker.base (task, index.toNat)).isSome = true := by
                  rw [armed]
                  rfl
                rw [onReceive_doing found live beyond entry waiting timer, isArmed]
                exact .success task t p found held live entry waiting isArmed

omit timestamp seq index now in
theorem Reception.advances {w' : World} {timestamp : UInt64} {index : UInt16} {now : UInt64}
    (reception : Reception w timestamp index now (.ok ((), w'))) :
    w.Advances w' ∧ (NoAccessAfterHandOver w.trace → NoAccessAfterHandOver w'.trace) := by
  cases reception with
  | unknown => exact ⟨⟨inv, .refl w⟩, id⟩
  | overflow task t found held live beyond =>
      refine ⟨⟨inv.log (by rfl), .log (by rfl)⟩, ?_⟩
      exact noAccess_log (inv.not_handedOver held) fun a touched => touched.symm
  | duplicate task t p found held live entry isDone =>
      have first : WorkerInv none (w.log (.accessTask task)) := inv.log (by rfl)
      refine ⟨⟨first.log (by rfl), .trans (.log (by rfl)) (.log (by rfl))⟩, ?_⟩
      intro safe
      refine noAccess_log (first.not_handedOver held) (fun a touched => touched.symm) ?_
      exact noAccess_log (inv.not_handedOver held) (fun a touched => touched.symm) safe
  | success task t p found held live entry waiting armed =>
      have serving := inv.serving held live
      obtain ⟨sendtime, log, _, _, _, sent, read⟩ :=
        (serving.entry _ p entry).agrees.of_doing waiting
      refine inv.closes held live entry waiting rfl ?_ rfl rfl rfl ?_
      · exact receiveEvents_local _ _ _
      · have mine : pingLog task index.toNat (receiveEvents task index.toNat now true) =
            [.success now] := by simp [receiveEvents, pingLog]
        have clock : readings (receiveEvents task index.toNat now true ++ w.trace) =
            now :: readings w.trace := by rw [readings_append]; rfl
        rw [mine, log, clock]
        refine .success sendtime now rfl sent rfl ⟨.tail now read, .head _⟩ ?_
        intro sorted
        exact List.rel_of_pairwise_cons sorted read

end receive

/-! ## Timeouts -/

section timeout
variable {w : World} (inv : WorkerInv none w) {task : TaskPtr} {i : Nat}
  (armed : (w.worker.base (task, i)).isSome = true)
include inv armed

/-- Only a waiting ping has an armed timer. -/
theorem WorkerInv.waiting_of_armed : task ∈ doingTasks w.trace ∧
    ∃ t p, w.heap task = some t ∧ t.pings[i]? = some p ∧ p.status = .doing := by
  have held := inv.of_armed armed
  obtain ⟨log, t, live, serving, underway⟩ := inv.of_doing held
  refine ⟨held, t, ?_⟩
  cases entry : t.pings[i]? with
  | none =>
      rw [(serving.outside i (List.getElem?_eq_none_iff.mp entry)).2] at armed
      cases armed
  | some p => exact ⟨p, live, rfl, (serving.entry i p entry).agrees.armed_iff.mp armed⟩

theorem fire_eq {t : Task} {p : Ping} (live : w.heap task = some t)
    (entry : t.pings[i]? = some p) :
    let t' := t.close i { p with status := .timeout }
    w.fire task i =
      .ok ((), (w.touchPing task i t' none (timeoutEvents task i)).finish task t') := by
  obtain ⟨held, t', p', live', entry', waiting⟩ := inv.waiting_of_armed armed
  rw [live, Option.some.injEq] at live'
  subst live'
  rw [entry, Option.some.injEq] at entry'
  subst entry'
  have serving := inv.serving held live
  have underway := inv.underway held live
  have served := serving.entry i p entry
  obtain ⟨_, _, _, worker, _⟩ := served.agrees.of_doing waiting
  have run := handleTimeout_doing (w := w.setTimer (task, i) none) (by exact live) entry
    served.parent (by exact worker) (Function.update_self ..) waiting
  simp only [World.touchPing_setTimer] at run
  exact run

theorem fire_advances {w' : World} (run : w.fire task i = .ok ((), w')) :
    w.Advances w' ∧ (NoAccessAfterHandOver w.trace → NoAccessAfterHandOver w'.trace) := by
  obtain ⟨held, t, p, live, entry, waiting⟩ := inv.waiting_of_armed armed
  rw [fire_eq inv armed live entry, Except.ok.injEq, Prod.mk.injEq] at run
  obtain ⟨-, rfl⟩ := run
  have serving := inv.serving held live
  obtain ⟨sendtime, log, _⟩ := (serving.entry i p entry).agrees.of_doing waiting
  refine inv.closes held live entry waiting rfl ?_ rfl rfl rfl ?_
  · exact timeoutEvents_local _ _
  · have mine : pingLog task i (timeoutEvents task i) = [.timeout] := by
      simp [timeoutEvents, pingLog]
    rw [mine, log]
    exact .timeout sendtime rfl

end timeout
end AsyncPing
