import AsyncPing.Library.Interleaving
import AsyncPing.Metatheory.ServerRuns
import AsyncPing.Metatheory.Twins

/-!
The workers run side by side. What one of them does is the same whether or not another has
run before, so the order in which the handlers of different workers run cannot be seen, except
in the order of the response queue.
-/
namespace AsyncPing

variable {W : Nat} {parse : List UInt8 → Option Value} {s t s' : Server W} {i j : Fin W}

/-- The same but for the order of the response queue. -/
structure Server.Alike (s t : Server W) : Prop where
  heap : t.heap = s.heap
  workers : t.workers = s.workers
  traces : t.traces = s.traces
  responses : s.master.responseQueue.Perm t.master.responseQueue
  pipe : t.master.notifyPipe = s.master.notifyPipe
  doingRequest : t.doingRequest = s.doingRequest
  randedIndex : t.randedIndex = s.randedIndex
  history : t.history = s.history

theorem Server.Alike.refl (s : Server W) : s.Alike s :=
  ⟨rfl, rfl, rfl, .rfl, rfl, rfl, rfl, rfl⟩

theorem Server.Alike.trans {r : Server W} (first : r.Alike s) (second : s.Alike t) : r.Alike t :=
  ⟨second.heap.trans first.heap, second.workers.trans first.workers,
    second.traces.trans first.traces, first.responses.trans second.responses,
    second.pipe.trans first.pipe, second.doingRequest.trans first.doingRequest,
    second.randedIndex.trans first.randedIndex, second.history.trans first.history⟩

/-- The event loops of the workers: a handler and whose it is. -/
def workersSystem (parse : List UInt8 → Option Value) (W : Nat) :
    Machine (Server W) (Fin W × WorkerMove) Fault :=
  (serverSystem parse W).relabel fun l => .worker l.1 l.2

/-- A worker in surroundings where its own Tasks are the same. -/
theorem ServerInv.twins (inv : ServerInv s) {v : World} (worker : v.worker = s.workers i)
    (trace : v.trace = s.traces i) (heap : ∀ a, (s.focus i).Holds a → v.heap a = s.heap a) :
    World.Twins (s.focus i).Holds (s.focus i) v (s.focus i) v where
  worker := worker
  trace := trace
  inside := heap
  outside a free := ⟨rfl, rfl⟩
  responses := ⟨[], rfl, rfl⟩
  closed a holds t live p member b parent := by
    obtain ⟨k, entry⟩ := List.mem_iff_getElem?.mp member
    have own : p.parentTask = some a := by
      cases holds with
      | inl queued =>
          obtain ⟨_, t', live', fresh, _⟩ := (inv.worker i).queued a queued
          rw [live, Option.some.injEq] at live'
          exact (fresh.entry k p (live' ▸ entry)).2.2
      | inr held => exact (((inv.worker i).serving held live).entry k p entry).parent
    rw [own] at parent
    exact Option.mem_some_iff.mp parent ▸ holds
  routed timestamp a route := .inr ((inv.worker i).routed timestamp a route).1
  queued a queued := .inl queued

/-- One handler, run by the same worker in other surroundings. -/
theorem ServerInv.twin_serve (inv : ServerInv s) {v w' : World} {move : WorkerMove}
    (worker : v.worker = s.workers i) (trace : v.trace = s.traces i)
    (heap : ∀ a, (s.focus i).Holds a → v.heap a = s.heap a) (loop : move.InLoop)
    (offered : move.enabled (s.focus i)) (served : move.serve (s.focus i) = .ok w') :
    move.enabled v ∧ ∃ v', move.serve v = .ok v' ∧
      World.Twins (s.focus i).Holds (s.focus i) v w' v' :=
  (inv.twins worker trace heap).serve (fun _ armed => .inr ((inv.worker i).of_armed armed)) loop
    offered served

theorem Server.Alike.serve (inv : ServerInv s) (alike : s.Alike t) {l : Fin W × WorkerMove}
    (offered : (workersSystem parse W).enabled s l)
    (served : (workersSystem parse W).serve l s = .ok s') :
    (workersSystem parse W).enabled t l ∧
      ∃ t', (workersSystem parse W).serve l t = .ok t' ∧ s'.Alike t' := by
  obtain ⟨i, move⟩ := l
  obtain ⟨w', run, rfl⟩ := resume_of_serve served
  obtain ⟨offered', v', run', twins⟩ := @ServerInv.twin_serve _ s i inv (t.focus i) w' move
    (congrFun alike.workers i) (congrFun alike.traces i) (fun a _ => congrFun alike.heap a)
    offered.1 offered.2 run
  refine ⟨⟨offered.1, offered'⟩, t.resume i v', ?_, ?_⟩
  · change (move.serve (t.focus i)).map (t.resume i) = _
    rw [run']
    rfl
  obtain ⟨pushed, first, second⟩ := twins.responses
  refine ⟨?_, ?_, ?_, ?_, ?_, alike.doingRequest, alike.randedIndex, alike.history⟩
  · funext a
    by_cases holds : (s.focus i).Holds a
    · exact twins.inside a holds
    · obtain ⟨before, after⟩ := twins.outside a holds
      exact after.trans ((congrFun alike.heap a).trans before.symm)
  · change Function.update t.workers i v'.worker = Function.update s.workers i w'.worker
    rw [alike.workers, twins.worker]
  · change Function.update t.traces i v'.trace = Function.update s.traces i w'.trace
    rw [alike.traces, twins.trace]
  · change w'.master.responseQueue.Perm v'.master.responseQueue
    rw [first, second]
    exact alike.responses.append_left pushed
  · change v'.master.notifyPipe = w'.master.notifyPipe
    rw [first, second]
    exact congrArg (· + pushed.length) alike.pipe

theorem Server.focus_resume_holds (other : j ≠ i) {w : World} {a : TaskPtr} :
    ((s.resume i w).focus j).Holds a ↔ (s.focus j).Holds a := by
  rw [Server.focus_resume_of_ne other]
  rfl

/-- Handlers of two workers, the one before the other or the other way round. -/
theorem ServerInv.commutes (inv : ServerInv s) {l m : Fin W × WorkerMove} (apart : l.1 ≠ m.1)
    {s₁ s₂ : Server W} (offered : (workersSystem parse W).enabled s l)
    (served : (workersSystem parse W).serve l s = .ok s₁)
    (offered' : (workersSystem parse W).enabled s₁ m)
    (served' : (workersSystem parse W).serve m s₁ = .ok s₂) :
    (workersSystem parse W).enabled s m ∧ ∃ t₁, (workersSystem parse W).serve m s = .ok t₁ ∧
      (workersSystem parse W).enabled t₁ l ∧ ∃ t₂, (workersSystem parse W).serve l t₁ = .ok t₂ ∧
        s₂.Alike t₂ := by
  obtain ⟨i, move⟩ := l
  obtain ⟨j, move'⟩ := m
  have other : j ≠ i := Ne.symm apart
  obtain ⟨w', run, rfl⟩ := resume_of_serve served
  obtain ⟨w'', run', rfl⟩ := resume_of_serve served'
  have advances := ((inv.worker i).moved offered.2 run).advances (inv.worker i) offered.1
  have acts := advances.acts
  -- worker j runs in the same way before worker i has
  obtain ⟨early, v', ran, twins⟩ := @ServerInv.twin_serve _ (s.resume i w') j (inv.resume advances)
    (s.focus j) w'' move' (Function.update_of_ne other ..).symm
    (Function.update_of_ne other ..).symm
    (fun a holds => (acts.heap a (inv.apart apart
      ((Server.focus_resume_holds other).mp holds))).symm)
    offered'.1 offered'.2 run'
  have acts' := (((inv.worker j).moved early ran).advances (inv.worker j) offered'.1).acts
  -- and worker i after worker j has
  obtain ⟨late, v'', ran', twins'⟩ := @ServerInv.twin_serve _ s i inv
    ((s.resume j v').focus i) w' move (Function.update_of_ne apart ..)
    (Function.update_of_ne apart ..) (fun a holds => acts'.heap a (inv.apart other holds))
    offered.1 offered.2 run
  refine ⟨⟨offered'.1, early⟩, s.resume j v', ?_, ⟨offered.1, late⟩,
    (s.resume j v').resume i v'', ?_, ?_⟩
  · change (move'.serve (s.focus j)).map (s.resume j) = _
    rw [ran]
    rfl
  · change (move.serve ((s.resume j v').focus i)).map ((s.resume j v').resume i) = _
    rw [ran']
    rfl
  obtain ⟨pushed, first, second⟩ := twins.responses
  obtain ⟨pushed', first', second'⟩ := twins'.responses
  refine ⟨?_, ?_, ?_, ?_, ?_, rfl, rfl, rfl⟩
  · funext a
    change v''.heap a = w''.heap a
    by_cases second : (s.focus j).Holds a
    · have own := twins.inside a ((Server.focus_resume_holds other).mpr second)
      exact (twins'.outside a (inv.apart apart second)).2.trans own
    · have foreign := (twins.outside a (mt (Server.focus_resume_holds other).mp second)).1
      by_cases first : (s.focus i).Holds a
      · exact (twins'.inside a first).trans foreign.symm
      · have before : w'.heap a = s.heap a := acts.heap a first
        have after : v'.heap a = s.heap a := acts'.heap a second
        exact (twins'.outside a first).2.trans (after.trans (before.symm.trans foreign.symm))
  · change Function.update (Function.update s.workers j v'.worker) i v''.worker =
      Function.update (Function.update s.workers i w'.worker) j w''.worker
    rw [twins.worker, twins'.worker, Function.update_comm other]
  · change Function.update (Function.update s.traces j v'.trace) i v''.trace =
      Function.update (Function.update s.traces i w'.trace) j w''.trace
    rw [twins.trace, twins'.trace, Function.update_comm other]
  · change w''.master.responseQueue.Perm v''.master.responseQueue
    have after : w'.master = s.master.after pushed' := first'
    have before : v'.master = s.master.after pushed := second
    rw [first, second']
    change (pushed ++ w'.master.responseQueue).Perm (pushed' ++ v'.master.responseQueue)
    rw [after, before]
    exact List.perm_append_comm_assoc pushed pushed' s.master.responseQueue
  · change v''.master.notifyPipe = w''.master.notifyPipe
    have after : w'.master = s.master.after pushed' := first'
    have before : v'.master = s.master.after pushed := second
    rw [first, second']
    change v'.master.notifyPipe + pushed'.length = w'.master.notifyPipe + pushed.length
    rw [after, before]
    change s.master.notifyPipe + pushed.length + pushed'.length =
      s.master.notifyPipe + pushed'.length + pushed.length
    omega

theorem workers_independent (workers : 0 < W) :
    (workersSystem parse W).Independent Prod.fst ServerInv Server.Alike where
  keeps {s l s'} inv offered served := by
    have moved := @ServerInv.moved _ parse s s' inv workers (.worker l.1 l.2) offered served
    exact inv.of_moved moved
  refl := Server.Alike.refl
  trans := Server.Alike.trans
  respects inv alike offered served := alike.serve inv offered served
  commutes inv apart offered served offered' served' :=
    inv.commutes apart offered served offered' served'

/-- In whatever order the handlers of different workers run, as long as each worker runs its own
in the same order, they all go through and leave the same behind: each worker, each Task, each
timer and each trace; only the responses may be queued in another order. -/
theorem workers_interleave (parse : List UInt8 → Option Value) (workers : 0 < W)
    (reached : (serverSystem parse W).Reachable (fun _ _ => True) s)
    {ls ls' : List (Fin W × WorkerMove)}
    (same : ∀ i, ls.filter (fun l => l.1 = i) = ls'.filter fun l => l.1 = i)
    (run : (workersSystem parse W).Makes s ls s') :
    ∃ t', (workersSystem parse W).Makes s ls' t' ∧ s'.Alike t' :=
  (workers_independent workers).interleave (.of_reachable workers reached) same run

namespace Sample

/-- Each worker has been sent a Task. -/
def both : Server 2 := ((serverSystem Sample.parse 2).follow (fun _ _ => True) server
  [.request ⟨100, .post, text⟩ ⟨7, raw, 2⟩ 0, .request ⟨101, .post, text⟩ ⟨8, raw, 2⟩ 0]).get rfl

theorem both_reachable : (serverSystem Sample.parse 2).Reachable (fun _ _ => True) both :=
  Machine.reachable_of_follow server_boots _ rfl

/-- No address converts, so each Task is handed back at once. -/
def inTurn : List (Fin 2 × WorkerMove) := [(0, .notified 50 fails), (1, .notified 60 fails)]

def handedBack : Server 2 := ((serverSystem Sample.parse 2).follow (fun _ _ => True) both
  [.worker 0 (.notified 50 fails), .worker 1 (.notified 60 fails)]).get rfl

theorem both_makes : (workersSystem Sample.parse 2).Makes both inTurn handedBack :=
  .cons ⟨trivial, by decide⟩ rfl (.cons ⟨trivial, by decide⟩ rfl (.nil _))

end Sample

theorem workers_interleave_swapped : ∃ t', (workersSystem Sample.parse 2).Makes Sample.both
    Sample.inTurn.reverse t' ∧ Sample.handedBack.Alike t' := by
  refine workers_interleave Sample.parse (by decide) Sample.both_reachable (fun i => ?_)
    Sample.both_makes
  cases i using Fin.cases with
  | zero => rfl
  | succ j =>
      rw [Fin.fin_one_eq_zero j]
      rfl

end AsyncPing
