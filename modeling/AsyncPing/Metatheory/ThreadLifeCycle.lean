import AsyncPing.Core.ThreadWorker
import Mathlib.Data.List.Nodup
import Mathlib.Tactic.Push

/-!
The handle of a ThreadWorker over sequences of operations that end with the
destructor. Flag and handle stay in step as long as runIt is called only where the
flag tells the truth, and `pthread_create` succeeds.
-/
namespace AsyncPing
namespace ThreadWorker

/-- Created by this object and not yet joined. -/
def Unjoined (w : ThreadWorker) (thread : Nat) : Prop :=
  thread < w.created ∧ thread ∉ w.joined

/-- `threadInst` is not null exactly when it holds the handle of a thread created
and not yet joined; there is no other such thread, and no thread was joined that
was not created, or twice. -/
structure HandleHeld (w : ThreadWorker) : Prop where
  holds : ∀ memory, w.threadInst = some memory → ∃ thread, memory = some thread ∧ w.Unjoined thread
  only : ∀ thread, w.Unjoined thread → w.threadInst = some (some thread)
  joins : w.joined.Nodup ∧ ∀ thread ∈ w.joined, thread < w.created

/-- The destructor runs through, and then every thread created was joined once. -/
def Destroyed (w : ThreadWorker) : Prop :=
  ∃ w', destroy w = .ok ((), w') ∧ w'.created = w.created ∧
    ∀ thread, thread < w.created → w'.joined.count thread = 1

/-- A call joins valid handles only, overwrites no handle of an unjoined thread, and
is runIt returning true only if there is an unjoined thread afterwards. -/
structure CallServed (w : ThreadWorker) (c : ThreadCall) (w' : ThreadWorker) : Prop where
  runs : c.run w = .ok ((), w')
  keepsHandle : ∀ status, c = .runIt status → ∀ thread, w.threadInst = some (some thread) →
    w.Unjoined thread → w'.threadInst = some (some thread)
  started : ∀ status, c = .runIt status → runIt status w = .ok (true, w') →
    ∃ thread, w'.Unjoined thread

/-- The life cycle of the handle through these calls and the destructor. -/
def LifeCycle : List ThreadCall → ThreadWorker → Prop
  | [], w => w.HandleHeld ∧ w.Destroyed
  | c :: cs, w => w.HandleHeld ∧ ∃ w', w.CallServed c w' ∧ LifeCycle cs w'

/-- The flag says whether there is a handle, and a thread that is to be created is
created. -/
def Ready (w : ThreadWorker) : ThreadCall → Prop
  | .runIt status => w.ended = w.threadInst.isNone ∧ (w.ended = true → status = 0)
  | .endThread | .join => True

/-- Every call meets the condition in the state it finds. -/
def AllReady : List ThreadCall → ThreadWorker → Prop
  | [], _ => True
  | c :: cs, w => w.Ready c ∧ ∀ w', c.run w = .ok ((), w') → AllReady cs w'

/-! ## What the operations do -/

section operations
variable {w : ThreadWorker}

theorem runIt_running (status : Nat) (running : w.ended = false) :
    runIt status w = .ok (true, w) := by
  simp only [runIt, Exec.get_bind, running, Bool.not_false, if_true]
  rfl

theorem runIt_created (idle : w.ended = true) : runIt 0 w = .ok (true,
    { w with ended := false, threadInst := some (some w.created), created := w.created + 1 }) := by
  simp only [runIt, Exec.get_bind, idle, Bool.not_true]
  rfl

theorem runIt_failed {status : Nat} (idle : w.ended = true) (failed : status ≠ 0) :
    runIt status w = .ok (false, { w with threadInst := some none }) := by
  simp only [runIt, Exec.get_bind, idle, Bool.not_true, pthreadCreate, if_neg failed,
    Bool.false_eq_true, if_false, Exec.modify_bind, pure_bind, if_pos failed]
  rfl

theorem pthreadJoin_eq {thread : Nat} (holds : w.threadInst = some (some thread))
    (unjoined : thread ∉ w.joined) :
    pthreadJoin w = .ok (0, { w with joined := thread :: w.joined }) := by
  obtain ⟨ended, threadInst, created, joined⟩ := w
  subst holds
  simp only [pthreadJoin, Exec.get_bind, if_neg unjoined]
  rfl

theorem join_null (null : w.threadInst = none) : join w = .ok ((), w) := by
  simp only [join, Exec.get_bind, if_pos null]
  rfl

theorem join_held {thread : Nat} (holds : w.threadInst = some (some thread))
    (unjoined : thread ∉ w.joined) :
    join w = .ok ((), { w with joined := thread :: w.joined, threadInst := none }) := by
  have held : w.threadInst ≠ none := holds ▸ Option.some_ne_none _
  simp only [join, Exec.get_bind, if_neg held, Exec.bind_of_ok (pthreadJoin_eq holds unjoined)]
  rfl

theorem destroy_held {thread : Nat} (holds : w.threadInst = some (some thread))
    (unjoined : thread ∉ w.joined) :
    destroy w = .ok ((), { w with ended := true, joined := thread :: w.joined }) := by
  have held : w.threadInst.isSome := holds ▸ rfl
  have joins : pthreadJoin { w with ended := true } = _ := pthreadJoin_eq holds unjoined
  simp only [destroy, Exec.get_bind, if_pos held, Exec.modify_bind, Exec.bind_of_ok joins]
  rfl

theorem destroy_null (null : w.threadInst = none) : destroy w = .ok ((), w) := by
  have empty : w.threadInst.isSome = false := null ▸ rfl
  simp only [destroy, Exec.get_bind, empty]
  rfl

theorem run_of_runIt {status : Nat} {result : Bool} {w' : ThreadWorker}
    (runs : runIt status w = .ok (result, w')) :
    (ThreadCall.runIt status).run w = .ok ((), w') := by
  simp only [ThreadCall.run, Exec.bind_of_ok runs]
  rfl

end operations

/-! ## One call -/

theorem CallServed.unique {w w₁ w₂ : ThreadWorker} {c : ThreadCall} (served : w.CallServed c w₁)
    (runs : c.run w = .ok ((), w₂)) : w₁ = w₂ := by
  cases served.runs.symm.trans runs
  rfl

theorem CallServed.of_join {w w' : ThreadWorker} (runs : join w = .ok ((), w')) :
    w.CallServed .join w' where
  runs := runs
  keepsHandle status other := by cases other
  started status other := by cases other

theorem CallServed.of_runIt {w w' : ThreadWorker} {status : Nat} {result : Bool}
    (runs : runIt status w = .ok (result, w'))
    (keeps : ∀ thread, w.threadInst = some (some thread) → w.Unjoined thread →
      w'.threadInst = some (some thread))
    (started : result = true → ∃ thread, w'.Unjoined thread) :
    w.CallServed (.runIt status) w' where
  runs := run_of_runIt runs
  keepsHandle other same := by
    cases same
    exact keeps
  started other same again := by
    cases same
    cases runs.symm.trans again
    exact started rfl

namespace HandleHeld
variable {w : ThreadWorker} (held : w.HandleHeld)
include held

theorem cases : (w.threadInst = none ∧ ∀ thread, ¬ w.Unjoined thread) ∨
    ∃ thread, w.threadInst = some (some thread) ∧ w.Unjoined thread := by
  cases inst : w.threadInst with
  | none =>
      refine .inl ⟨rfl, fun thread unjoined => ?_⟩
      cases inst.symm.trans (held.only thread unjoined)
  | some memory =>
      obtain ⟨thread, rfl, unjoined⟩ := held.holds memory inst
      exact .inr ⟨thread, rfl, unjoined⟩

theorem endThread : ({ w with ended := true } : ThreadWorker).HandleHeld :=
  ⟨held.holds, held.only, held.joins⟩

/-- Joining the only thread leaves none. -/
theorem join {thread : Nat} (holds : w.threadInst = some (some thread))
    (unjoined : w.Unjoined thread) :
    ({ w with joined := thread :: w.joined, threadInst := none } : ThreadWorker).HandleHeld where
  holds memory inst := by cases inst
  only other left := by
    obtain ⟨below, notIn⟩ := left
    obtain ⟨apart, before⟩ := not_or.mp (mt List.mem_cons.mpr notIn)
    have same := holds.symm.trans (held.only other ⟨below, before⟩)
    exact absurd (Option.some.inj (Option.some.inj same)).symm apart
  joins := by
    refine ⟨List.nodup_cons.mpr ⟨unjoined.2, held.joins.1⟩, fun other member => ?_⟩
    cases List.mem_cons.mp member with
    | inl same =>
        subst same
        exact unjoined.1
    | inr before => exact held.joins.2 other before

theorem create (null : w.threadInst = none) : ({ w with
      ended := false, threadInst := some (some w.created), created := w.created + 1 } :
    ThreadWorker).HandleHeld where
  holds memory inst := by
    refine ⟨w.created, (Option.some.inj inst).symm, Nat.lt_succ_self _, fun member => ?_⟩
    exact Nat.lt_irrefl _ (held.joins.2 _ member)
  only thread unjoined := by
    obtain ⟨below, notIn⟩ := unjoined
    cases Nat.lt_succ_iff_lt_or_eq.mp below with
    | inl before =>
        cases null.symm.trans (held.only thread ⟨before, notIn⟩)
    | inr same =>
        subst same
        rfl
  joins := ⟨held.joins.1, fun thread member => Nat.lt_succ_of_lt (held.joins.2 thread member)⟩

theorem destroyed : w.Destroyed := by
  have once {joined : List Nat} (distinct : joined.Nodup)
      (all : ∀ thread, thread < w.created → thread ∈ joined) (thread : Nat)
      (below : thread < w.created) : joined.count thread = 1 :=
    List.count_eq_one_of_mem distinct (all thread below)
  cases held.cases with
  | inl both =>
      obtain ⟨null, none⟩ := both
      refine ⟨w, destroy_null null, rfl, once held.joins.1 fun other below => ?_⟩
      by_contra notIn
      exact none other ⟨below, notIn⟩
  | inr both =>
      obtain ⟨thread, holds, unjoined⟩ := both
      have after := held.join holds unjoined
      refine ⟨_, destroy_held holds unjoined.2, rfl, once after.joins.1 fun other below => ?_⟩
      by_contra notIn
      cases after.only other ⟨below, notIn⟩

/-- A call keeps the handle in step if and only if its condition is met. -/
theorem call_iff (c : ThreadCall) :
    (∃ w', w.CallServed c w' ∧ w'.HandleHeld) ↔ w.Ready c := by
  cases c with
  | endThread =>
      refine iff_of_true ⟨_, ⟨rfl, ?_, ?_⟩, held.endThread⟩ trivial
      · intro status other
        cases other
      · intro status other
        cases other
  | join =>
      refine iff_of_true ?_ trivial
      cases held.cases with
      | inl both =>
          obtain ⟨null, -⟩ := both
          exact ⟨w, .of_join (join_null null), held⟩
      | inr both =>
          obtain ⟨thread, holds, unjoined⟩ := both
          exact ⟨_, .of_join (join_held holds unjoined.2), held.join holds unjoined⟩
  | runIt status =>
      cases ended : w.ended with
      | false =>
          have runs := runIt_running status ended
          cases held.cases with
          | inl both =>
              obtain ⟨null, none⟩ := both
              refine iff_of_false ?_ ?_
              · rintro ⟨w', served, -⟩
                have same := served.unique (run_of_runIt runs)
                subst same
                obtain ⟨thread, unjoined⟩ := served.started status rfl runs
                exact none thread unjoined
              · rintro ⟨flag, -⟩
                rw [ended, null] at flag
                cases flag
          | inr both =>
              obtain ⟨thread, holds, unjoined⟩ := both
              refine iff_of_true ⟨w, .of_runIt runs ?_ ?_, held⟩ ⟨?_, ?_⟩
              · exact fun _ same _ => same
              · exact fun _ => ⟨thread, unjoined⟩
              · rw [ended, holds]
                rfl
              · rw [ended]
                intro idle
                cases idle
      | true =>
          by_cases created : status = 0
          · subst created
            have runs := runIt_created ended
            cases held.cases with
            | inl both =>
                obtain ⟨null, -⟩ := both
                refine iff_of_true ⟨_, .of_runIt runs ?_ ?_, held.create null⟩ ⟨?_, fun _ => rfl⟩
                · intro thread holds
                  cases null.symm.trans holds
                · exact fun _ => ⟨w.created, Nat.lt_succ_self _,
                    fun member => Nat.lt_irrefl _ (held.joins.2 _ member)⟩
                · rw [ended, null]
                  rfl
            | inr both =>
                obtain ⟨thread, holds, unjoined⟩ := both
                refine iff_of_false ?_ ?_
                · rintro ⟨w', served, -⟩
                  have same := served.unique (run_of_runIt runs)
                  subst same
                  have kept := served.keepsHandle 0 rfl thread holds unjoined
                  have number : w.created = thread := Option.some.inj (Option.some.inj kept)
                  exact Nat.ne_of_gt unjoined.1 number
                · rintro ⟨flag, -⟩
                  rw [ended, holds] at flag
                  cases flag
          · refine iff_of_false ?_ fun ready => created (ready.2 ended)
            rintro ⟨w', served, held'⟩
            have same := served.unique (run_of_runIt (runIt_failed ended created))
            subst same
            obtain ⟨thread, memory, -⟩ := held'.holds none rfl
            cases memory

end HandleHeld

theorem LifeCycle.held {cs : List ThreadCall} {w : ThreadWorker} (cycle : LifeCycle cs w) :
    w.HandleHeld := by
  cases cs with
  | nil => exact cycle.1
  | cons c cs => exact cycle.1

theorem lifeCycle_iff (cs : List ThreadCall) {w : ThreadWorker} (held : w.HandleHeld) :
    LifeCycle cs w ↔ AllReady cs w := by
  induction cs generalizing w with
  | nil => exact iff_of_true ⟨held, held.destroyed⟩ trivial
  | cons c cs ih =>
      constructor
      · rintro ⟨-, w', served, rest⟩
        refine ⟨(held.call_iff c).mp ⟨w', served, rest.held⟩, fun w₂ runs => ?_⟩
        rw [← served.unique runs]
        exact (ih rest.held).mp rest
      · rintro ⟨ready, rest⟩
        obtain ⟨w', served, held'⟩ := (held.call_iff c).mpr ready
        exact ⟨held, w', served, (ih held').mpr (rest w' served.runs)⟩

theorem construct_held : construct.HandleHeld where
  holds memory inst := by cases inst
  only thread unjoined := absurd unjoined.1 (Nat.not_lt_zero thread)
  joins := ⟨List.nodup_nil, fun thread member => by cases member⟩

end ThreadWorker

open ThreadWorker in
theorem thread_life_cycle_iff (cs : List ThreadCall) :
    LifeCycle cs construct ↔ AllReady cs construct :=
  lifeCycle_iff cs construct_held

/-- A second runIt after endThread overwrites the handle of the first thread. -/
theorem runIt_overwrites_handle : ¬ ∀ cs, ThreadWorker.LifeCycle cs .construct := by
  intro everyCycle
  have cycle := everyCycle [.runIt 0, .endThread, .runIt 0]
  obtain ⟨-, second⟩ := (ThreadWorker.lifeCycle_iff _ ThreadWorker.construct_held).mp cycle
  obtain ⟨-, third⟩ := second _ rfl
  obtain ⟨⟨flag, -⟩, -⟩ := third _ rfl
  cases flag

end AsyncPing
