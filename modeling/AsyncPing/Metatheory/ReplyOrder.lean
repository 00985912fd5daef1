import AsyncPing.Core.SocketRead
import AsyncPing.Metatheory.CountsAndTimers
import Mathlib.Data.List.Dedup

/-!
Replies delivered one after the other. What a list of them leaves behind is
described by the set of replies alone: a waiting ping that one of them is for is
a success, and a task is handed back when none of its pings is left waiting.
Only the receive times and the order of the response queue tell the lists apart.
-/
namespace AsyncPing
open TaskWorker

/-- Deliver replies in this order, each with the reading of the clock that the
handler takes. -/
def deliver : List (EchoReply × UInt64) → World → Except Fault World
  | [], w => .ok w
  | (r, now) :: ds, w => do
      let (_, w') ← onReceive r.timestamp r.seq r.index now w
      deliver ds w'

def Ping.untimed (p : Ping) : Ping := { p with recvtime := 0 }

/-- The Task without the receive times. -/
def Task.untimed (t : Task) : Task :=
  { t with pingArray := t.pingArray.map (·.map Ping.untimed) }

/-- The same statuses, counters, timers, maps and handed back tasks: all but the
receive times, the order of the response queue and the trace. -/
structure World.SameUpToTimes (w w' : World) : Prop where
  heap : ∀ a, (w.heap a).map Task.untimed = (w'.heap a).map Task.untimed
  worker : w.worker = w'.worker
  handed : w.master.responseQueue.Perm w'.master.responseQueue
  pipe : w.master.notifyPipe = w'.master.notifyPipe

/-! ## The effect of a set of replies -/

def Ping.answer (hit : Bool) (p : Ping) : Ping :=
  if p.status = .doing ∧ hit = true then { p with status := .success } else p

/-- The same Task with other entries, which it counts. -/
def Task.withPings (t : Task) (ps : List Ping) : Task :=
  { t with
    doneCount := ps.countP (·.status.terminal)
    pingArray := t.pingArray.map fun _ => ps }

/-- The entries once those at these positions were replied to. -/
def answered (hit : Nat → Bool) (ps : List Ping) : List Ping :=
  ps.mapIdx fun i p => p.answer (hit i)

def Task.answer (hit : Nat → Bool) (t : Task) : Task := t.withPings (answered hit t.pings)

/-- Some ping is not done yet, unless there are none. -/
def Task.Unfinished (t : Task) : Prop := t.pings = [] ∨ ∃ p ∈ t.pings, p.status.terminal = false

/-- The positions in a task that the replies are for. -/
def World.hits (w : World) (rs : List EchoReply) (a : TaskPtr) (i : Nat) : Bool :=
  rs.any fun r => decide (w.worker.doingMap r.timestamp = some a ∧ r.index.toNat = i)

section data
variable {t s : Task} {hit : Nat → Bool} {i : Nat} {p : Ping} {ps : List Ping}

theorem answered_getElem? (hit : Nat → Bool) (ps : List Ping) (i : Nat) :
    (answered hit ps)[i]? = ps[i]?.map fun p => p.answer (hit i) :=
  List.getElem?_mapIdx

theorem Task.withPings_pings (counted : t.doneCount = t.pings.countP (·.status.terminal)) :
    t.withPings t.pings = t := by
  obtain ⟨_, _, _, _, done, array⟩ := t
  cases array with
  | none => exact congrArg (Task.mk _ _ _ _ · none) counted.symm
  | some ps => exact congrArg (Task.mk _ _ _ _ · (some ps)) counted.symm

theorem Task.withPings_withPings (t : Task) (ps qs : List Ping) :
    (t.withPings ps).withPings qs = t.withPings qs := by
  simp only [withPings, Option.map_map]
  rfl

theorem Task.pings_answer (hit : Nat → Bool) (t : Task) :
    (t.answer hit).pings = answered hit t.pings := by
  cases array : t.pingArray <;> simp [answer, withPings, answered, pings, array]

theorem Task.pings_untimed (t : Task) : t.untimed.pings = t.pings.map Ping.untimed := by
  cases array : t.pingArray <;> simp [untimed, pings, array]

/-- Receive times do not matter for the count. -/
theorem Task.untimed_withPings (t : Task) (ps : List Ping) :
    (t.withPings ps).untimed = t.untimed.withPings (ps.map Ping.untimed) := by
  have count : (ps.map Ping.untimed).countP (·.status.terminal) =
      ps.countP (·.status.terminal) := List.countP_map
  simp only [untimed, withPings, count, Option.map_map]
  rfl

theorem Task.close_eq_withPings (q : Ping)
    (counted : t.doneCount + 1 = (t.pings.set i q).countP (·.status.terminal)) :
    t.close i q = t.withPings (t.pings.set i q) := by
  simp only [close, withPings, counted, setPing]
  cases array : t.pingArray <;> simp [pings, array]

theorem Task.entry_of_untimed (same : s.untimed = t.untimed) (entry : t.pings[i]? = some p) :
    ∃ q, s.pings[i]? = some q ∧ q.status = p.status := by
  have pings : (s.pings.map Ping.untimed)[i]? = (t.pings.map Ping.untimed)[i]? := by
    rw [← s.pings_untimed, ← t.pings_untimed, same]
  rw [List.getElem?_map, List.getElem?_map, entry] at pings
  obtain ⟨q, there, eq⟩ := Option.map_eq_some_iff.mp pings
  have status : q.untimed.status = p.untimed.status := congrArg Ping.status eq
  exact ⟨q, there, status⟩

theorem Task.Unfinished.congr (same : t.untimed = s.untimed) (unfinished : t.Unfinished) :
    s.Unfinished := by
  cases unfinished with
  | inl empty =>
      have pings : s.pings.map Ping.untimed = t.pings.map Ping.untimed := by
        rw [← t.pings_untimed, ← s.pings_untimed, same]
      rw [empty] at pings
      exact .inl (List.map_eq_nil_iff.mp pings)
  | inr both =>
      obtain ⟨p, member, isOpen⟩ := both
      obtain ⟨i, entry⟩ := List.mem_iff_getElem?.mp member
      obtain ⟨q, there, status⟩ := Task.entry_of_untimed same.symm entry
      exact .inr ⟨q, List.mem_of_getElem? there, status ▸ isOpen⟩

theorem Task.forall_unfinished {o o' : Option Task} (same : o.map untimed = o'.map untimed)
    (all : ∀ t ∈ o, t.Unfinished) : ∀ t ∈ o', t.Unfinished := by
  intro t here
  rw [Option.mem_def.mp here] at same
  obtain ⟨s, there, eq⟩ := Option.map_eq_some_iff.mp same
  exact (all s there).congr eq

/-- A ping that is still waiting was not replied to. -/
theorem Ping.answer_doing {replied : Bool} (waiting : (p.answer replied).status = .doing) :
    p.answer replied = p ∧ p.status = .doing := by
  unfold answer at waiting ⊢
  split
  · rename_i both
    rw [if_pos both] at waiting
    cases waiting
  · rename_i neither
    rw [if_neg neither] at waiting
    exact ⟨rfl, waiting⟩

theorem Ping.answer_idle {replied : Bool} (idle : (p.answer replied).status ≠ .doing)
    (more : Bool) : p.answer (replied || more) = p.answer replied := by
  cases replied with
  | true => rfl
  | false =>
      have quiet : p.status ≠ .doing := by simpa [answer] using idle
      simp [answer, quiet]

/-- Nobody replied. -/
theorem answered_none (ps : List Ping) : answered (fun _ => false) ps = ps := by
  apply List.ext_getElem?
  intro i
  rw [answered_getElem?]
  simp [Ping.answer]

/-- A reply for a ping that is not waiting adds nothing. -/
theorem answered_idle (idle : ∀ p, (answered hit ps)[i]? = some p → p.status ≠ .doing) :
    answered (fun j => hit j || decide (i = j)) ps = answered hit ps := by
  apply List.ext_getElem?
  intro j
  rw [answered_getElem?, answered_getElem?]
  by_cases here : i = j
  · subst here
    rw [answered_getElem?] at idle
    cases entry : ps[i]? with
    | none => rfl
    | some p =>
        rw [entry] at idle
        exact congrArg some (Ping.answer_idle (idle _ rfl) _)
  · simp only [here, decide_false, Bool.or_false]

/-- A reply for a waiting ping makes it a success. -/
theorem answered_close {xs : List Ping} {recvtime : Int64}
    (same : xs.map Ping.untimed = (answered hit ps).map Ping.untimed) (entry : xs[i]? = some p)
    (waiting : p.status = .doing) :
    (xs.set i { p with status := .success, recvtime }).map Ping.untimed =
      (answered (fun j => hit j || decide (i = j)) ps).map Ping.untimed := by
  apply List.ext_getElem?
  intro j
  have before := congrArg (·[j]?) same
  simp only [List.getElem?_map, answered_getElem?] at before
  rw [List.getElem?_map, List.getElem?_map, answered_getElem?]
  by_cases here : i = j
  · subst here
    have bound := (List.getElem?_eq_some_iff.mp entry).1
    cases origin : ps[i]? with
    | none =>
        rw [origin, entry] at before
        cases before
    | some q =>
        rw [origin, entry] at before
        have eq : p.untimed = (q.answer (hit i)).untimed := Option.some.inj before
        have status : p.untimed.status = (q.answer (hit i)).untimed.status :=
          congrArg Ping.status eq
        obtain ⟨unhit, held⟩ := Ping.answer_doing (status.symm.trans waiting)
        have now : q.answer (hit i || decide (i = i)) = { q with status := .success } := by
          simp [Ping.answer, held]
        rw [unhit] at eq
        rw [List.getElem?_set_self bound, Option.map_some, Option.map_some, Option.map_some, now]
        exact congrArg (fun r : Ping => some { r with status := .success }) eq
  · rw [List.getElem?_set_ne here, before]
    simp only [here, decide_false, Bool.or_false]

theorem Task.answer_close {t₁ : Task} {recvtime : Int64}
    (same : t₁.untimed = (t.answer hit).untimed) (entry : t₁.pings[i]? = some p)
    (waiting : p.status = .doing)
    (counted : t₁.doneCount = t₁.pings.countP (·.status.terminal)) :
    (t₁.close i { p with status := .success, recvtime }).untimed =
      (t.answer fun j => hit j || decide (i = j)).untimed := by
  have isOpen : p.status.terminal = false := by rw [waiting]; rfl
  have closed : (t₁.pings.set i { p with status := .success, recvtime }).countP
      (·.status.terminal) = t₁.pings.countP (·.status.terminal) + 1 :=
    Sequence.countP_set_closed (fun q : Ping => q.status.terminal) entry isOpen rfl
  have pings : t₁.pings.map Ping.untimed = (answered hit t.pings).map Ping.untimed := by
    rw [← t₁.pings_untimed, same, pings_untimed, pings_answer]
  rw [close_eq_withPings _ (by omega), untimed_withPings, same, answer, untimed_withPings,
    withPings_withPings, answered_close pings entry waiting, answer, untimed_withPings]

end data

/-! ## The state behind a list of replies -/

namespace World
variable {w w' w'' : World} {rs rs' : List EchoReply} {r : EchoReply} {a : TaskPtr}

theorem hits_found (found : w.worker.doingMap r.timestamp = some a) :
    w.hits (rs ++ [r]) a = fun i => w.hits rs a i || decide (r.index.toNat = i) := by
  funext i
  simp [hits, found]

theorem hits_other (other : w.worker.doingMap r.timestamp ≠ some a) :
    w.hits (rs ++ [r]) a = w.hits rs a := by
  funext i
  simp [hits, other]

theorem hits_congr (same : ∀ r, r ∈ rs ↔ r ∈ rs') : w.hits rs = w.hits rs' := by
  funext a i
  apply Bool.eq_iff_iff.mpr
  simp only [hits, List.any_eq_true, same]

theorem finish_doing (w : World) (a : TaskPtr) (t : Task) : doingTasks (w.finish a t).trace =
    if t.doneCount ≥ t.totalCount then (doingTasks w.trace).erase a else doingTasks w.trace := by
  rw [World.finish]
  split <;> rfl

theorem finish_doingMap (w : World) (a : TaskPtr) (t : Task) :
    (w.finish a t).worker.doingMap =
      if t.doneCount ≥ t.totalCount then Function.update w.worker.doingMap t.timestamp none
      else w.worker.doingMap := by
  rw [World.finish]
  split <;> rfl

theorem finish_queue (w : World) (a : TaskPtr) (t : Task) :
    (w.finish a t).worker.taskQueue = w.worker.taskQueue ∧
      (w.finish a t).worker.notifyPipe = w.worker.notifyPipe := by
  rw [World.finish]
  split <;> exact ⟨rfl, rfl⟩

/-- A task with pings is complete when all of them are done. -/
theorem Stage.complete_iff {t : Task} (stage : w.Stage a t) (nonempty : t.pings ≠ []) :
    t.doneCount ≥ t.totalCount ↔ ¬ t.Unfinished := by
  obtain ⟨counted, -, total⟩ := stage.counted
  constructor
  · intro all unfinished
    obtain ⟨p, member, isOpen⟩ := unfinished.resolve_left nonempty
    obtain ⟨i, entry⟩ := List.mem_iff_getElem?.mp member
    have short := Sequence.countP_lt_length (fun q : Ping => q.status.terminal) entry isOpen
    omega
  · intro finished
    by_contra less
    have short : t.pings.countP (·.status.terminal) < t.pings.length := by omega
    obtain ⟨i, p, entry, isOpen⟩ := Sequence.exists_open _ short
    exact finished (.inr ⟨p, List.mem_of_getElem? entry, isOpen⟩)

/-- What the replies leave behind, read off the set of them. -/
structure Delivered (w : World) (rs : List EchoReply) (w' : World) : Prop where
  acts : w.Acts w'
  queue : w'.worker.taskQueue = w.worker.taskQueue
  notified : w'.worker.notifyPipe = w.worker.notifyPipe
  heap : ∀ a, (w'.heap a).map Task.untimed =
    (w.heap a).map fun t => (t.answer (w.hits rs a)).untimed
  doing : ∀ a, a ∈ doingTasks w'.trace ↔
    a ∈ doingTasks w.trace ∧ ∀ t ∈ w'.heap a, t.Unfinished
  routed : ∀ ts a, w'.worker.doingMap ts = some a ↔
    w.worker.doingMap ts = some a ∧ a ∈ doingTasks w'.trace

namespace Delivered

/-- An admitted task is not finished. -/
theorem unfinished (inv : w.RunInv) (held : a ∈ doingTasks w.trace) :
    ∀ t ∈ w.heap a, t.Unfinished := by
  intro t live
  by_cases empty : t.pings = []
  · exact .inl empty
  · have waiting := (inv.worker.underway held live).waiting empty
    by_contra finished
    have complete := ((inv.of_live live).complete_iff empty).mpr finished
    omega

theorem refl (inv : w.RunInv) : w.Delivered [] w where
  acts := .refl w
  queue := rfl
  notified := rfl
  heap a := by
    cases live : w.heap a with
    | none => rfl
    | some t =>
        have counted := (inv.of_live live).counted.1
        have nobody : w.hits [] a = fun _ => false := rfl
        rw [Option.map_some, Option.map_some, nobody, Task.answer, answered_none,
          Task.withPings_pings counted]
  doing a := (and_iff_left_of_imp (unfinished inv)).symm
  routed ts a := (and_iff_left_of_imp fun found => (inv.worker.routed ts a found).1).symm

theorem heap_some {t₁ : Task} (delivered : w.Delivered rs w') (live : w'.heap a = some t₁) :
    ∃ t, w.heap a = some t ∧ t₁.untimed = (t.answer (w.hits rs a)).untimed := by
  have same := delivered.heap a
  rw [live] at same
  obtain ⟨t, before, eq⟩ := Option.map_eq_some_iff.mp same.symm
  exact ⟨t, before, eq.symm⟩

/-- A reply that changes no ping. -/
theorem idle (delivered : w.Delivered rs w') (acts : w'.Acts w'')
    (heap : w''.heap = w'.heap) (worker : w''.worker = w'.worker)
    (doing : doingTasks w''.trace = doingTasks w'.trace)
    (quiet : ∀ a t p, w.worker.doingMap r.timestamp = some a → w'.heap a = some t →
      t.pings[r.index.toNat]? = some p → p.status ≠ .doing) :
    w.Delivered (rs ++ [r]) w'' where
  acts := delivered.acts.trans acts
  queue := worker ▸ delivered.queue
  notified := worker ▸ delivered.notified
  heap b := by
    rw [heap, delivered.heap b]
    by_cases found : w.worker.doingMap r.timestamp = some b
    · rw [hits_found found]
      cases live : w.heap b with
      | none => rfl
      | some t =>
          have same := delivered.heap b
          rw [live] at same
          obtain ⟨t₁, live₁, eq⟩ := Option.map_eq_some_iff.mp same
          have still : ∀ p, (answered (w.hits rs b) t.pings)[r.index.toNat]? = some p →
              p.status ≠ .doing := by
            intro p entry
            rw [← Task.pings_answer] at entry
            obtain ⟨q, there, status⟩ := Task.entry_of_untimed eq entry
            exact status ▸ quiet b t₁ q found live₁ there
          rw [Option.map_some, Option.map_some, Task.answer, Task.answer, answered_idle still]
    · rw [hits_other found]
  doing b := by
    rw [doing, heap]
    exact delivered.doing b
  routed ts b := by
    rw [doing, worker]
    exact delivered.routed ts b

section closing
variable {t₁ t₂ : Task} {p : Ping} {now : UInt64} (delivered : w.Delivered rs w')
  (inv : w.RunInv) (inv' : w'.RunInv)
  (found : w'.worker.doingMap r.timestamp = some a) (held : a ∈ doingTasks w'.trace)
  (live : w'.heap a = some t₁) (entry : t₁.pings[r.index.toNat]? = some p)
  (waiting : p.status = .doing)
  (closed : t₂ = t₁.close r.index.toNat { p with status := .success, recvtime := now.toInt64 })
  (after : w'' = (w'.touchPing a r.index.toNat t₂ none
    (receiveEvents a r.index.toNat now true)).finish a t₂)
  (inv'' : w''.RunInv)
include delivered found live entry waiting closed after

include inv' in
theorem closes_heap (b : TaskPtr) : (w''.heap b).map Task.untimed =
    (w.heap b).map fun t => (t.answer (w.hits (rs ++ [r]) b)).untimed := by
  have first := (delivered.routed r.timestamp a).mp found
  rw [after, finish_heap]
  by_cases same : b = a
  · subst same
    obtain ⟨t, before, eq⟩ := delivered.heap_some live
    have counted := (inv'.of_live live).counted.1
    have here : (w'.touchPing b r.index.toNat t₂ none
        (receiveEvents b r.index.toNat now true)).heap b = some t₂ := Function.update_self ..
    rw [here, before, Option.map_some, Option.map_some, hits_found first.1, closed,
      Task.answer_close eq entry waiting counted]
  · have elsewhere : (w'.touchPing a r.index.toNat t₂ none
        (receiveEvents a r.index.toNat now true)).heap b = w'.heap b :=
      Function.update_of_ne same ..
    have other : w.worker.doingMap r.timestamp ≠ some b := by
      rw [first.1]
      exact fun eq => same (Option.some.inj eq).symm
    rw [elsewhere, delivered.heap b, hits_other other]

include held inv'' in
omit waiting in
theorem closes_doing (b : TaskPtr) : b ∈ doingTasks w''.trace ↔
    b ∈ doingTasks w.trace ∧ ∀ t ∈ w''.heap b, t.Unfinished := by
  have touched : doingTasks (w'.touchPing a r.index.toNat t₂ none
      (receiveEvents a r.index.toNat now true)).trace = doingTasks w'.trace :=
    doingTasks_local (receiveEvents_local _ _ _) w'.trace
  have heap : w''.heap = Function.update w'.heap a (some t₂) := by
    rw [after, finish_heap]
    rfl
  by_cases same : b = a
  · subst same
    have live'' : w''.heap b = some t₂ := heap ▸ Function.update_self ..
    have nonempty : t₂.pings ≠ [] := by
      rw [closed, Task.pings_close]
      exact mt (List.set_eq_nil_iff _ _).mp (List.ne_nil_of_mem (List.mem_of_getElem? entry))
    have complete := (inv''.of_live live'').complete_iff nonempty
    have before := ((delivered.doing b).mp held).1
    constructor
    · exact fun now => ⟨before, unfinished inv'' now⟩
    · rintro ⟨_, still⟩
      rw [after, finish_doing, touched, if_neg (mt complete.mp (not_not.mpr (still t₂ live'')))]
      exact held
  · have keeps : b ∈ doingTasks w''.trace ↔ b ∈ doingTasks w'.trace := by
      rw [after, finish_doing, touched]
      split
      · rw [Finset.mem_erase]
        exact and_iff_right same
      · exact Iff.rfl
    rw [keeps, heap, Function.update_of_ne same]
    exact delivered.doing b

include inv inv' in
omit entry waiting in
theorem closes_routed (ts : UInt64) (b : TaskPtr) : w''.worker.doingMap ts = some b ↔
    w.worker.doingMap ts = some b ∧ b ∈ doingTasks w''.trace := by
  have touched : doingTasks (w'.touchPing a r.index.toNat t₂ none
      (receiveEvents a r.index.toNat now true)).trace = doingTasks w'.trace :=
    doingTasks_local (receiveEvents_local _ _ _) w'.trace
  have map : (w'.touchPing a r.index.toNat t₂ none
      (receiveEvents a r.index.toNat now true)).worker.doingMap = w'.worker.doingMap := rfl
  have first := ((delivered.routed r.timestamp a).mp found).1
  have stamp : t₂.timestamp = r.timestamp := by
    obtain ⟨_, t, live', stamp⟩ := inv'.worker.routed r.timestamp a found
    rw [live, Option.some.injEq] at live'
    rw [closed, live']
    exact stamp
  rw [after, finish_doing, finish_doingMap, touched, map, stamp]
  split
  · by_cases here : ts = r.timestamp
    · subst here
      rw [Function.update_self, first, Finset.mem_erase]
      constructor
      · intro absent
        cases absent
      · rintro ⟨same, other, _⟩
        exact absurd (Option.some.inj same).symm other
    · rw [Function.update_of_ne here, delivered.routed ts b, Finset.mem_erase]
      refine and_congr_right fun route => (and_iff_right ?_).symm
      -- a task is found under its own timestamp only
      intro same
      subst same
      obtain ⟨_, t, live₀, stamp₀⟩ := inv.worker.routed ts b route
      obtain ⟨_, t', live₁, stamp₁⟩ := inv.worker.routed r.timestamp b first
      rw [live₀, Option.some.injEq] at live₁
      exact here (stamp₀.symm.trans (live₁ ▸ stamp₁))
  · exact delivered.routed ts b

end closing

/-- One more reply. -/
theorem receive (now : UInt64) (delivered : w.Delivered rs w') (inv : w.RunInv)
    (inv' : w'.RunInv) (inRange : ∀ t ∈ w.found r.timestamp, (r.index.toNat : Int) < t.totalCount) :
    ∃ w'', onReceive r.timestamp r.seq r.index now w' = .ok ((), w'') ∧ w''.RunInv ∧
      w.Delivered (rs ++ [r]) w'' := by
  have reception := onReceive_reception inv'.worker r.timestamp r.seq r.index now
  cases result : onReceive r.timestamp r.seq r.index now w' with
  | error fault =>
      rw [result] at reception
      cases reception with
      | outOfRange a t₁ found held live atEnd =>
          have first := ((delivered.routed r.timestamp a).mp found).1
          obtain ⟨t, before, eq⟩ := delivered.heap_some live
          have total : t₁.untimed.totalCount = (t.answer (w.hits rs a)).untimed.totalCount :=
            congrArg Task.totalCount eq
          have below := inRange t (by rw [World.found, first]; exact before)
          change t₁.totalCount = t.totalCount at total
          omega
  | ok outcome =>
      obtain ⟨⟨⟩, w''⟩ := outcome
      rw [result] at reception
      have acts := (reception.advances inv'.worker).1.acts
      have served : WorkerMove.serve (.datagram r.timestamp r.seq r.index now) w' = .ok w'' := by
        rw [WorkerMove.serve, result]
        rfl
      have inv'' := inv'.step (l := .datagram r.timestamp r.seq r.index now) trivial served
      refine ⟨w'', rfl, inv'', ?_⟩
      cases reception with
      | unknown absent =>
          refine delivered.idle acts rfl rfl rfl ?_
          intro a t p route live entry waiting
          -- the task was found before and is not any more: it is finished
          have gone : a ∉ doingTasks w'.trace := by
            intro held
            rw [(delivered.routed r.timestamp a).mpr ⟨route, held⟩] at absent
            cases absent
          refine gone ((delivered.doing a).mpr ⟨(inv.worker.routed _ a route).1, ?_⟩)
          intro s here
          rw [live, Option.mem_some] at here
          exact here ▸ .inr ⟨p, List.mem_of_getElem? entry, by rw [waiting]; rfl⟩
      | overflow a t₁ found held live beyond =>
          refine delivered.idle acts rfl rfl rfl ?_
          intro b t p route live' entry
          rw [((delivered.routed r.timestamp a).mp found).1, Option.some.injEq] at route
          subst route
          rw [live, Option.some.injEq] at live'
          subst live'
          have bound := (List.getElem?_eq_some_iff.mp entry).1
          have total := (inv'.of_live live).total
          omega
      | duplicate a t₁ q found held live there isDone =>
          refine delivered.idle acts rfl rfl rfl ?_
          intro b t p route live' entry waiting
          rw [((delivered.routed r.timestamp a).mp found).1, Option.some.injEq] at route
          subst route
          rw [live, Option.some.injEq] at live'
          subst live'
          rw [there, Option.some.injEq] at entry
          rw [entry, waiting] at isDone
          cases isDone
      | success a t₁ p found held live entry waiting armed =>
          refine ⟨delivered.acts.trans acts, ?_, ?_, ?_, ?_, ?_⟩
          · exact (finish_queue _ a _).1.trans delivered.queue
          · exact (finish_queue _ a _).2.trans delivered.notified
          · exact delivered.closes_heap inv' found live entry waiting rfl rfl
          · exact delivered.closes_doing found held live entry rfl rfl inv''
          · exact delivered.closes_routed inv inv' found live rfl rfl

end Delivered

/-- The timers of an admitted task are those of its waiting pings, and nobody
else has any. -/
theorem RunInv.timer_eq (inv : w.RunInv) (a : TaskPtr) (i : Nat) : w.worker.base (a, i) =
    if a ∈ doingTasks w.trace then
      ((w.heap a).map Task.untimed).bind fun t => t.pings[i]?.bind fun p =>
        if p.status = .doing then some p.timeout else none
    else none := by
  by_cases held : a ∈ doingTasks w.trace
  · obtain ⟨_, t, live, serving, _⟩ := inv.worker.of_doing held
    rw [if_pos held, live, Option.map_some, Option.bind_some, Task.pings_untimed,
      List.getElem?_map]
    cases entry : t.pings[i]? with
    | none => exact (serving.outside i (List.getElem?_eq_none_iff.mp entry)).2
    | some p =>
        have agrees := (serving.entry i p entry).agrees
        change _ = if p.status = .doing then some p.timeout else none
        split
        · rename_i waiting
          obtain ⟨_, _, armed, _⟩ := agrees.of_doing waiting
          exact armed
        · rename_i quiet
          exact agrees.unarmed quiet
  · rw [if_neg held]
    exact (inv.worker.task a).disarmed held i

/-- The same set of replies leaves the same behind. -/
theorem Delivered.same {w₁ w₂ : World} (first : w.Delivered rs w₁) (second : w.Delivered rs' w₂)
    (inv₁ : w₁.RunInv) (inv₂ : w₂.RunInv) (members : ∀ r, r ∈ rs ↔ r ∈ rs') :
    w₁.SameUpToTimes w₂ := by
  have heap (a : TaskPtr) : (w₁.heap a).map Task.untimed = (w₂.heap a).map Task.untimed := by
    rw [first.heap, second.heap, hits_congr members]
  have doing : doingTasks w₁.trace = doingTasks w₂.trace := by
    ext a
    rw [first.doing, second.doing]
    refine and_congr_right fun _ => ⟨?_, ?_⟩
    · exact Task.forall_unfinished (heap a)
    · exact Task.forall_unfinished (heap a).symm
  have map : w₁.worker.doingMap = w₂.worker.doingMap := by
    funext ts
    apply Option.ext
    intro a
    rw [first.routed, second.routed, doing]
  have count : w₁.worker.doingCount = w₂.worker.doingCount := by
    rw [inv₁.worker.count, inv₂.worker.count, doing]
  have base : w₁.worker.base = w₂.worker.base := by
    funext event
    rw [inv₁.timer_eq event.1 event.2, inv₂.timer_eq event.1 event.2, doing, heap]
  have queue := first.queue.trans second.queue.symm
  have handed : w₁.master.responseQueue.Perm w₂.master.responseQueue := by
    apply List.perm_iff_count.mpr
    intro a
    have custody := (first.acts.custody a).trans (second.acts.custody a).symm
    simp only [holdings, queue, doing] at custody
    omega
  refine ⟨heap, ?_, handed, ?_⟩
  · change TaskWorker.mk w₁.worker.self w₁.worker.pid w₁.worker.threadId w₁.worker.doingMap
      w₁.worker.taskQueue w₁.worker.doingCount w₁.worker.notifyPipe w₁.worker.base =
      TaskWorker.mk w₂.worker.self w₂.worker.pid w₂.worker.threadId w₂.worker.doingMap
      w₂.worker.taskQueue w₂.worker.doingCount w₂.worker.notifyPipe w₂.worker.base
    rw [first.acts.self, second.acts.self, first.acts.pid, second.acts.pid, first.acts.threadId,
      second.acts.threadId, map, queue, count, first.notified, second.notified, base]
  · have length := handed.length_eq
    have before := first.acts.pipe
    have after := second.acts.pipe
    omega

/-- A whole list of replies. -/
theorem Delivered.deliver (ds : List (EchoReply × UInt64)) (delivered : w.Delivered rs w')
    (inv : w.RunInv) (inv' : w'.RunInv)
    (inRange : ∀ d ∈ ds, ∀ t ∈ w.found d.1.timestamp, (d.1.index.toNat : Int) < t.totalCount) :
    ∃ w'', deliver ds w' = .ok w'' ∧ w''.RunInv ∧
      w.Delivered (rs ++ ds.map Prod.fst) w'' := by
  induction ds generalizing rs w' with
  | nil => exact ⟨w', rfl, inv', by rwa [List.map_nil, List.append_nil]⟩
  | cons d ds ih =>
      obtain ⟨next, run, inv₁, one⟩ :=
        delivered.receive d.2 inv inv' (inRange d (List.mem_cons_self ..))
      obtain ⟨w'', rest, inv₂, all⟩ :=
        ih one inv₁ fun d member => inRange d (List.mem_cons_of_mem _ member)
      refine ⟨w'', ?_, inv₂, ?_⟩
      · rw [AsyncPing.deliver, run]
        exact rest
      · rw [List.append_assoc] at all
        exact all

end World

/-- Replies can be reordered, and repeated ones left out. -/
theorem replies_order_independent (w : World)
    (reached : workerSystem.Reachable (fun _ _ => True) w) (ds : List (EchoReply × UInt64))
    (inRange : ∀ d ∈ ds, ∀ t ∈ w.found d.1.timestamp, (d.1.index.toNat : Int) < t.totalCount) :
    ∃ w₁, deliver ds w = .ok w₁ ∧ ∀ ds' : List (EchoReply × UInt64),
      (ds.map Prod.fst).Perm (ds'.map Prod.fst) ∨ ds'.map Prod.fst = (ds.map Prod.fst).dedup →
      ∃ w₂, deliver ds' w = .ok w₂ ∧ w₁.SameUpToTimes w₂ := by
  have inv := World.RunInv.of_reachable reached
  obtain ⟨w₁, run₁, inv₁, first⟩ := (World.Delivered.refl inv).deliver ds inv inv inRange
  refine ⟨w₁, run₁, fun ds' same => ?_⟩
  have members (r : EchoReply) : r ∈ ds.map Prod.fst ↔ r ∈ ds'.map Prod.fst := by
    cases same with
    | inl perm => exact perm.mem_iff
    | inr dedup =>
        rw [dedup, List.mem_dedup]
  have inRange' : ∀ d ∈ ds', ∀ t ∈ w.found d.1.timestamp,
      (d.1.index.toNat : Int) < t.totalCount := by
    intro d member
    obtain ⟨e, there, eq⟩ := List.mem_map.mp ((members d.1).mpr (List.mem_map_of_mem member))
    exact eq ▸ inRange e there
  obtain ⟨w₂, run₂, inv₂, second⟩ := (World.Delivered.refl inv).deliver ds' inv inv inRange'
  exact ⟨w₂, run₂, first.same second inv₁ inv₂ members⟩

/-- The last reply of a task twice, and one for nobody. -/
theorem replies_order_independent_waiting :
    ∃ w₁, deliver [(⟨50, 0, 0⟩, 95), (⟨50, 0, 0⟩, 96), (⟨51, 0, 3⟩, 97)] Sample.waiting = .ok w₁ ∧
      ∀ ds' : List (EchoReply × UInt64),
        List.Perm [⟨50, 0, 0⟩, ⟨50, 0, 0⟩, ⟨51, 0, 3⟩] (ds'.map Prod.fst) ∨
          ds'.map Prod.fst = List.dedup [⟨50, 0, 0⟩, ⟨50, 0, 0⟩, ⟨51, 0, 3⟩] →
        ∃ w₂, deliver ds' Sample.waiting = .ok w₂ ∧ w₁.SameUpToTimes w₂ :=
  replies_order_independent Sample.waiting (Sample.waiting_reachable.mono fun _ _ _ => trivial)
    [(⟨50, 0, 0⟩, 95), (⟨50, 0, 0⟩, 96), (⟨51, 0, 3⟩, 97)] (by decide)

end AsyncPing
