import AsyncPing.Core.World
import Mathlib.Data.Finset.Insert
import Mathlib.Data.Finset.Erase

/-!
Reading the trace. An address can be used again for a new Task, so what is read
about a task starts at the latest `enqueue` of its address. The trace is newest
first; appending the events of one handler to the left extends it.
-/
namespace AsyncPing

/-- The tasks admitted and not yet handed back. -/
def doingTasks : List Event → Finset TaskPtr
  | [] => ∅
  | .task task .admitted :: trace => insert task (doingTasks trace)
  | .task task (.sendToMaster _ _) :: trace => (doingTasks trace).erase task
  | .task _ .complete :: trace => doingTasks trace
  | .enqueue _ _ :: trace | .accessTask _ :: trace | .accessPing _ _ :: trace
  | .clock _ :: trace | .eventDel _ _ :: trace | .ping _ _ _ :: trace => doingTasks trace

/-- What happened to the Task object now at this address, newest first. -/
def taskLog (task : TaskPtr) : List Event → List TaskEvent
  | [] => []
  | .enqueue other _ :: trace => if other = task then [] else taskLog task trace
  | .task other e :: trace => if other = task then e :: taskLog task trace else taskLog task trace
  | .accessTask _ :: trace | .accessPing _ _ :: trace
  | .clock _ :: trace | .eventDel _ _ :: trace | .ping _ _ _ :: trace => taskLog task trace

/-- What happened to one of its pings, newest first. -/
def pingLog (task : TaskPtr) (i : Nat) : List Event → List PingEvent
  | [] => []
  | .enqueue other _ :: trace => if other = task then [] else pingLog task i trace
  | .ping other j e :: trace =>
      if other = task ∧ j = i then e :: pingLog task i trace else pingLog task i trace
  | .accessTask _ :: trace | .accessPing _ _ :: trace
  | .clock _ :: trace | .eventDel _ _ :: trace | .task _ _ :: trace => pingLog task i trace

/-- The readings of the clock, newest first. -/
def readings : List Event → List UInt64
  | [] => []
  | .clock now :: trace => now :: readings trace
  | .enqueue _ _ :: trace | .accessTask _ :: trace | .accessPing _ _ :: trace
  | .eventDel _ _ :: trace | .ping _ _ _ :: trace | .task _ _ :: trace => readings trace

/-- The object last enqueued at this address, as it was then. -/
def origin (task : TaskPtr) : List Event → Option Task
  | [] => none
  | .enqueue other contents :: trace => if other = task then some contents else origin task trace
  | .accessTask _ :: trace | .accessPing _ _ :: trace | .clock _ :: trace
  | .eventDel _ _ :: trace | .ping _ _ _ :: trace | .task _ _ :: trace => origin task trace

/-- How many objects were enqueued at this address. -/
def incarnation (task : TaskPtr) : List Event → Nat
  | [] => 0
  | .enqueue other _ :: trace => incarnation task trace + if other = task then 1 else 0
  | .accessTask _ :: trace | .accessPing _ _ :: trace | .clock _ :: trace
  | .eventDel _ _ :: trace | .ping _ _ _ :: trace | .task _ _ :: trace => incarnation task trace

def TaskEvent.handsOver : TaskEvent → Bool
  | .sendToMaster _ _ => true
  | .admitted | .complete => false

def HandedOver (task : TaskPtr) (trace : List Event) : Prop :=
  ∃ e ∈ taskLog task trace, e.handsOver = true

/-- The event reads or writes the Task object or one of its pings. -/
def Event.Accesses (task : TaskPtr) : Event → Prop
  | .accessTask other | .accessPing other _ => other = task
  | _ => False

/-- No object was accessed after it had been handed over. -/
def NoAccessAfterHandOver : List Event → Prop
  | [] => True
  | e :: trace =>
      (∀ task, e.Accesses task → ¬ HandedOver task trace) ∧ NoAccessAfterHandOver trace

/-- Events of a handler at work on one ping; it cancels armed timers only. -/
def Event.Local (task : TaskPtr) (i : Nat) : Event → Prop
  | .accessTask other => other = task
  | .accessPing other _ => other = task
  | .clock _ => True
  | .eventDel event armed => event = (task, i) ∧ armed = true
  | .ping other j _ => other = task ∧ j = i
  | .enqueue _ _ | .task _ _ => False

/-- What an event must satisfy by itself: a timer is armed when it is cancelled,
and a task is alive without armed timers when it is handed over. -/
def Event.Disciplined : Event → Prop
  | .eventDel _ armed => armed = true
  | .task _ (.sendToMaster contents timers) => contents.isSome = true ∧ ∀ i, timers i = none
  | _ => True

/-- The event says nothing about any other task. -/
def Event.Concerns (task : TaskPtr) : Event → Prop
  | .enqueue other _ | .ping other _ _ | .task other _ => other = task
  | .accessTask _ | .accessPing _ _ | .clock _ | .eventDel _ _ => True

/-- A reading that skips each of these events skips all of them. -/
theorem skip_events {β : Type} {P : Event → Prop} {evs : List Event}
    (reading : List Event → β) (skip : ∀ e trace, P e → reading (e :: trace) = reading trace)
    (all : ∀ e ∈ evs, P e) (trace : List Event) : reading (evs ++ trace) = reading trace := by
  induction evs with
  | nil => rfl
  | cons e evs ih =>
      obtain ⟨here, rest⟩ := List.forall_mem_cons.mp all
      exact (skip e (evs ++ trace) here).trans (ih rest)

section concerns
variable {task a : TaskPtr} {evs : List Event} (other : a ≠ task)
  (about : ∀ e ∈ evs, e.Concerns task)
include other about

theorem doingTasks_concerns (trace : List Event) :
    a ∈ doingTasks (evs ++ trace) ↔ a ∈ doingTasks trace := by
  refine iff_of_eq (skip_events (a ∈ doingTasks ·) (fun e trace here => ?_) about trace)
  cases e with
  | task b e =>
      have apart : a ≠ b := fun same => other (same.trans here)
      cases e <;> simp [doingTasks, apart]
  | enqueue _ _ | accessTask _ | accessPing _ _ | clock _ | eventDel _ _ | ping _ _ _ => rfl

theorem taskLog_concerns (trace : List Event) : taskLog a (evs ++ trace) = taskLog a trace := by
  refine skip_events (taskLog a) (fun e trace here => ?_) about trace
  cases e with
  | enqueue b _ | task b _ => exact if_neg fun same => other (same.symm.trans here)
  | accessTask _ | accessPing _ _ | clock _ | eventDel _ _ | ping _ _ _ => rfl

theorem pingLog_concerns (i : Nat) (trace : List Event) :
    pingLog a i (evs ++ trace) = pingLog a i trace := by
  refine skip_events (pingLog a i) (fun e trace here => ?_) about trace
  cases e with
  | enqueue b _ => exact if_neg fun same => other (same.symm.trans here)
  | ping b _ _ => exact if_neg fun same => other (same.1.symm.trans here)
  | accessTask _ | accessPing _ _ | clock _ | eventDel _ _ | task _ _ => rfl

theorem origin_concerns (trace : List Event) : origin a (evs ++ trace) = origin a trace := by
  refine skip_events (origin a) (fun e trace here => ?_) about trace
  cases e with
  | enqueue b _ => exact if_neg fun same => other (same.symm.trans here)
  | accessTask _ | accessPing _ _ | clock _ | eventDel _ _ | ping _ _ _ | task _ _ => rfl

end concerns

section append
variable {task : TaskPtr} {i : Nat} {evs : List Event}

theorem concerns_local (at_i : ∀ e ∈ evs, e.Local task i) : ∀ e ∈ evs, e.Concerns task := by
  intro e member
  cases e with
  | enqueue _ _ | task _ _ => exact (at_i _ member).elim
  | accessTask _ | accessPing _ _ | clock _ | eventDel _ _ => trivial
  | ping other _ _ => exact (at_i _ member).1

theorem doingTasks_local (at_i : ∀ e ∈ evs, e.Local task i) (trace : List Event) :
    doingTasks (evs ++ trace) = doingTasks trace := by
  refine skip_events doingTasks (fun e trace here => ?_) at_i trace
  cases e <;> first | exact here.elim | rfl

theorem taskLog_local (at_i : ∀ e ∈ evs, e.Local task i) (a : TaskPtr) (trace : List Event) :
    taskLog a (evs ++ trace) = taskLog a trace := by
  refine skip_events (taskLog a) (fun e trace here => ?_) at_i trace
  cases e <;> first | exact here.elim | rfl

theorem origin_local (at_i : ∀ e ∈ evs, e.Local task i) (a : TaskPtr) (trace : List Event) :
    origin a (evs ++ trace) = origin a trace := by
  refine skip_events (origin a) (fun e trace here => ?_) at_i trace
  cases e <;> first | exact here.elim | rfl

theorem pingLog_local (at_i : ∀ e ∈ evs, e.Local task i) (a : TaskPtr) (j : Nat)
    (trace : List Event) :
    pingLog a j (evs ++ trace) = pingLog a j evs ++ pingLog a j trace := by
  induction evs with
  | nil => rfl
  | cons e evs ih =>
      obtain ⟨here, rest⟩ := List.forall_mem_cons.mp at_i
      cases e with
      | enqueue _ _ | task _ _ => exact here.elim
      | accessTask _ | accessPing _ _ | clock _ | eventDel _ _ => exact ih rest
      | ping other k e =>
          simp only [List.cons_append, pingLog, ih rest]
          split <;> rfl

theorem pingLog_local_other (at_i : ∀ e ∈ evs, e.Local task i) {a : TaskPtr} {j : Nat}
    (other : ¬ (task = a ∧ i = j)) : pingLog a j evs = [] := by
  induction evs with
  | nil => rfl
  | cons e evs ih =>
      obtain ⟨here, rest⟩ := List.forall_mem_cons.mp at_i
      cases e with
      | enqueue _ _ | task _ _ => exact here.elim
      | accessTask _ | accessPing _ _ | clock _ | eventDel _ _ => exact ih rest
      | ping b k e =>
          obtain ⟨rfl, rfl⟩ := here
          rw [pingLog, if_neg other]
          exact ih rest

theorem noAccess_local (at_i : ∀ e ∈ evs, e.Local task i) {trace : List Event}
    (held : ¬ HandedOver task trace) (safe : NoAccessAfterHandOver trace) :
    NoAccessAfterHandOver (evs ++ trace) := by
  induction evs with
  | nil => exact safe
  | cons e evs ih =>
      obtain ⟨here, rest⟩ := List.forall_mem_cons.mp at_i
      refine ⟨?_, ih rest⟩
      intro a touched
      have same : a = task := by
        cases e with
        | accessTask _ | accessPing _ _ => exact touched.symm.trans here
        | clock _ | eventDel _ _ | ping _ _ _ | enqueue _ _ | task _ _ => exact touched.elim
      change ¬ ∃ e ∈ taskLog a (evs ++ trace), e.handsOver = true
      rw [same, taskLog_local rest]
      exact held

theorem disciplined_local (at_i : ∀ e ∈ evs, e.Local task i) : ∀ e ∈ evs, e.Disciplined := by
  intro e member
  cases e with
  | enqueue _ _ | task _ _ => exact (at_i _ member).elim
  | accessTask _ | accessPing _ _ | clock _ | ping _ _ _ => trivial
  | eventDel event armed => exact (at_i _ member).2

end append

theorem readings_append (evs trace : List Event) :
    readings (evs ++ trace) = readings evs ++ readings trace := by
  induction evs with
  | nil => rfl
  | cons e evs ih =>
      cases e with
      | clock now => exact congrArg (now :: ·) ih
      | enqueue _ _ | accessTask _ | accessPing _ _ | eventDel _ _ | ping _ _ _ | task _ _ =>
          exact ih

theorem readings_suffix {old new : List Event} (grown : old <:+ new) :
    readings old <:+ readings new := by
  obtain ⟨evs, rfl⟩ := grown
  exact ⟨readings evs, (readings_append evs old).symm⟩

/-! ## Growing traces -/

section incarnation
variable {task : TaskPtr} {old new : List Event}

theorem incarnation_mono (grown : old <:+ new) : incarnation task old ≤ incarnation task new := by
  obtain ⟨evs, rfl⟩ := grown
  induction evs with
  | nil => exact Nat.le_refl _
  | cons e evs ih =>
      cases e with
      | enqueue _ _ => exact Nat.le_trans ih (Nat.le_add_right ..)
      | accessTask _ | accessPing _ _ | clock _ | eventDel _ _ | ping _ _ _ | task _ _ => exact ih

/-- While the address holds the same object, its history only grows. -/
theorem histories_grow (grown : old <:+ new)
    (same : incarnation task new = incarnation task old) :
    taskLog task old <:+ taskLog task new ∧ (∀ i, pingLog task i old <:+ pingLog task i new) ∧
      origin task new = origin task old := by
  obtain ⟨evs, rfl⟩ := grown
  induction evs with
  | nil => exact ⟨List.suffix_rfl, fun _ => List.suffix_rfl, rfl⟩
  | cons e evs ih =>
      have least : incarnation task old ≤ incarnation task (evs ++ old) :=
        incarnation_mono (List.suffix_append evs old)
      cases e with
      | enqueue other _ =>
          simp only [List.cons_append, incarnation] at same
          have apart : ¬ other = task := by
            intro here
            rw [if_pos here] at same
            omega
          rw [if_neg apart] at same
          simpa only [List.cons_append, taskLog, pingLog, origin, if_neg apart] using ih same
      | task other e =>
          obtain ⟨tasks, pings, source⟩ := ih same
          refine ⟨?_, pings, source⟩
          simp only [List.cons_append, taskLog]
          split
          · exact tasks.trans (List.suffix_cons ..)
          · exact tasks
      | ping other j e =>
          obtain ⟨tasks, pings, source⟩ := ih same
          refine ⟨tasks, fun i => ?_, source⟩
          simp only [List.cons_append, pingLog]
          split
          · exact (pings i).trans (List.suffix_cons ..)
          · exact pings i
      | accessTask _ | accessPing _ _ | clock _ | eventDel _ _ => exact ih same

end incarnation

theorem not_handedOver_of_taskLog {task : TaskPtr} {trace : List Event} {es : List TaskEvent}
    (log : taskLog task trace = es) (held : ∀ e ∈ es, e.handsOver = false) :
    ¬ HandedOver task trace := by
  rintro ⟨e, member, hands⟩
  rw [log] at member
  rw [held e member] at hands
  cases hands

end AsyncPing
