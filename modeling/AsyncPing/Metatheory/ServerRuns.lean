import AsyncPing.Metatheory.ServerSteps

/-!
Whole runs of the server. An enabled move does one of the listed changes, so the
invariant holds in every reachable state; and a move that is enabled runs through
when replies stay in range.
-/
namespace AsyncPing
open HttpServer

/-! ## The dispatch index -/

theorem getRandIntvalue_bounds {rand W : Nat} (drawn : rand ≤ RAND_MAX) (workers : 0 < W) :
    0 ≤ getRandIntvalue rand 0 W ∧ (getRandIntvalue rand 0 W).toNat < W := by
  have above : ¬ (W : Int) ≤ 0 := by omega
  have product : 0 ≤ (rand : Int) * W := Int.mul_nonneg (by omega) (by omega)
  have range : (rand : Int) * W < (RAND_MAX + 1) * W := by
    have : (rand : Int) < RAND_MAX + 1 := by omega
    exact mul_lt_mul_of_pos_right this (by omega)
  have low : 0 ≤ (rand : Int) * W / (RAND_MAX + 1) := Int.ediv_nonneg product (by omega)
  have high : (rand : Int) * W / (RAND_MAX + 1) < W :=
    Int.ediv_lt_of_lt_mul (by omega) (by rw [mul_comm (W : Int)]; exact range)
  rw [getRandIntvalue, if_neg above, Int.sub_zero]
  omega

/-! ## The handlers -/

section handlers
variable {W : Nat} {s : Server W} {parse : List UInt8 → Option Value} {req : EvhttpRequest}
  {site : Allocation} {rand : Nat} {task : TaskPtr} {t : Task}

theorem readTask_bind_live {β : Type} (live : s.heap task = some t)
    (k : Task → ServerHandler W β) : (HttpServer.readTask task >>= k) s = k t s := by
  refine Exec.bind_of_ok ?_ k
  simp only [HttpServer.readTask, Exec.get_bind, live]
  rfl

theorem deleteTask_live (live : s.heap task = some t) :
    deleteTask task s = .ok ((), (s.log (.deleted task)).setTask task none) := by
  rw [deleteTask, readTask_bind_live live]
  rfl

theorem workerAt_bind {β : Type} {index : Int} (inside : 0 ≤ index ∧ index.toNat < W)
    (k : Fin W → ServerHandler W β) :
    (workerAt index >>= k) s = k ⟨index.toNat, inside.2⟩ s := by
  refine Exec.bind_of_ok ?_ k
  rw [workerAt, dif_pos inside]
  rfl

theorem sendToWorker_eq {index : Int}
    (chosen : s.randedIndex.getD (getRandIntvalue rand 0 W) = index)
    (inside : 0 ≤ index ∧ index.toNat < W) :
    sendToWorker task t rand s = .ok ((), { enqueueAt ⟨index.toNat, inside.2⟩ task t s with
      randedIndex := some ((index + 1).tmod W) }) := by
  rw [sendToWorker, Exec.get_bind]
  simp only [chosen]
  rw [workerAt_bind inside]
  rfl

theorem constructed_run (built : HttpHandler.constructed parse req site = some t) :
    (HttpHandler.construct parse req site).run = some (.ok t) := by
  rw [HttpHandler.constructed] at built
  split at built
  · rename_i t' run
    rw [Option.some.injEq] at built
    rw [run, built]
  · cases built

/-- What the handler does with a request whose Task has been built. -/
theorem handlePingReq_eq (built : HttpHandler.constructed parse req site = some t)
    (unused : s.doingRequest site.task = none) :
    handlePingReq parse req site rand s =
      if t.prepareError then .ok ((), s.reject req.self site.task t)
      else sendToWorker site.task t rand (s.receive req.self site.task t) := by
  have live : (s.receive req.self site.task t).heap site.task = some t := Function.update_self ..
  rw [handlePingReq, newTask, constructed_run built]
  simp only [HttpServer.record, Exec.modify_bind, Exec.get_bind, Server.log, Server.setTask,
    unused, Server.setRequest]
  change (HttpServer.readTask site.task >>= _) (s.receive req.self site.task t) = _
  rw [readTask_bind_live live]
  split <;> rfl

theorem fillHttpResponse_request {self : TaskPtr} {before response : HttpResponse}
    (filled : t.fillHttpResponse self before = .ok response) :
    response.request = before.request := by
  rw [Task.fillHttpResponse] at filled
  split at filled
  · cases filled
    rfl
  · cases built : t.buildResponse self with
    | error fault =>
        rw [built] at filled
        cases filled
    | ok body =>
        rw [built] at filled
        cases filled
        rfl

theorem Task.Answerable.fills (answerable : t.Answerable) (self : TaskPtr)
    (before : HttpResponse) : ∃ response, t.fillHttpResponse self before = .ok response := by
  have builds : ∃ body, t.buildResponse self = .ok body := by
    cases bad : t.prepareError with
    | true => exact ⟨_, by rw [Task.buildResponse, if_pos bad]⟩
    | false =>
        cases answerable with
        | inl marked =>
            rw [bad] at marked
            cases marked
        | inr total => exact ⟨_, t.buildResponse_eq self total bad⟩
  obtain ⟨body, built⟩ := builds
  rw [Task.fillHttpResponse, built]
  split
  · exact ⟨_, rfl⟩
  · exact ⟨_, rfl⟩

theorem tryRespEventHandler_eq {rest : List TaskPtr} {req : RequestPtr} {response : HttpResponse}
    (popped : Sequence.popTail s.master.responseQueue = some (task, rest))
    (request : s.doingRequest task = some req) (live : s.heap task = some t)
    (filled : t.fillHttpResponse task (.ofRequest req) = .ok response) :
    tryRespEventHandler s = .ok ((), s.answer req task rest response.doResponse) := by
  have own : response.request = req := fillHttpResponse_request filled
  simp only [tryRespEventHandler, Exec.modify_bind, Exec.get_bind, popped, request]
  refine (readTask_bind_live (t := t) ?_ _).trans ?_
  · exact live
  rw [filled]
  refine (Exec.bind_of_ok (a := response) rfl _).trans ?_
  simp only [HttpServer.record, Exec.modify_bind, own]
  refine (deleteTask_live (t := t) ?_).trans rfl
  exact live

/-- A Task without error comes from an accepted body. -/
theorem constructed_fresh (built : HttpHandler.constructed parse req site = some t)
    (ok : t.prepareError = false) : t.Fresh site.task := by
  have run := constructed_run built
  rw [HttpHandler.construct] at run
  split at run
  · cases run
    cases ok
  · split at run
    · cases run
      cases ok
    · rename_i jv _
      have returned : (Task.ofJson site.task site.raw site.fuel jv :
        Option (Except Thrown Task)) = some (.ok t) := run
      have accepted : Task.accepted site.task site.raw site.fuel jv = some t := by
        rw [Task.accepted, returned]
        simp only [ok, Bool.false_eq_true, if_false]
      exact Task.accepted_fresh accepted

end handlers

/-! ## One move -/

theorem resume_of_serve {W : Nat} {s s' : Server W} {i : Fin W} {move : WorkerMove}
    (served : (move.serve (s.focus i)).map (s.resume i) = .ok s') :
    ∃ w', move.serve (s.focus i) = .ok w' ∧ s' = s.resume i w' := by
  cases run : move.serve (s.focus i) with
  | error fault =>
      rw [run] at served
      cases served
  | ok w' =>
      rw [run] at served
      cases served
      exact ⟨w', rfl, rfl⟩

/-- What a move that runs through has done. -/
inductive Server.Moved {W : Nat} (parse : List UInt8 → Option Value) (s : Server W) :
    ServerMove W → Server W → Prop
  | rejected (req : EvhttpRequest) (site : Allocation) (rand : Nat) (t : Task)
      (free : s.heap site.task = none) (fresh : outstanding req.self s.history = none)
      (built : HttpHandler.constructed parse req site = some t) (bad : t.prepareError = true) :
      Moved parse s (.request req site rand) (s.reject req.self site.task t)
  | passedOn (req : EvhttpRequest) (site : Allocation) (rand : Nat) (t : Task) (i : Fin W)
      (free : s.heap site.task = none) (fresh : outstanding req.self s.history = none)
      (built : HttpHandler.constructed parse req site = some t) (ready : t.Fresh site.task) :
      Moved parse s (.request req site rand) (s.passOn req.self site.task t i)
  | worker (i : Fin W) (move : WorkerMove) (w' : World) (loop : move.InLoop)
      (moved : (s.focus i).Moved move w') :
      Moved parse s (.worker i move) (s.resume i w')
  | answered (task : TaskPtr) (req : RequestPtr) (rest : List TaskPtr) (t : Task)
      (response : HttpResponse)
      (popped : Sequence.popTail s.master.responseQueue = some (task, rest))
      (request : s.doingRequest task = some req) (live : s.heap task = some t)
      (filled : t.fillHttpResponse task (.ofRequest req) = .ok response) :
      Moved parse s .respond (s.answer req task rest response.doResponse)

namespace ServerInv
variable {W : Nat} {parse : List UInt8 → Option Value} {s s' : Server W}

theorem handles_request (inv : ServerInv s) (workers : 0 < W) {req : EvhttpRequest}
    {site : Allocation} {rand : Nat}
    (offered : (ServerMove.request req site rand : ServerMove W).enabled parse s) :
    ∃ s', (ServerMove.request req site rand).serve parse s = .ok s' ∧
      Server.Moved parse s (.request req site rand) s' := by
  obtain ⟨free, fresh, drawn, returns⟩ := offered
  obtain ⟨t, built⟩ := Option.isSome_iff_exists.mp returns
  have run : handlePingReq parse req site rand s = _ :=
    handlePingReq_eq built (inv.ledger.no_request free)
  rw [ServerMove.serve, run]
  cases bad : t.prepareError with
  | true => exact ⟨_, rfl, .rejected req site rand t free fresh built bad⟩
  | false =>
      obtain ⟨index, chosen⟩ : ∃ index, s.randedIndex.getD (getRandIntvalue rand 0 W) = index :=
        ⟨_, rfl⟩
      have inside : 0 ≤ index ∧ index.toNat < W := by
        rw [← chosen]
        cases last : s.randedIndex with
        | none => exact getRandIntvalue_bounds drawn workers
        | some index => exact inv.index index last
      obtain ⟨k, rfl⟩ := Int.eq_ofNat_of_zero_le inside.1
      refine ⟨s.passOn req.self site.task t ⟨k, inside.2⟩, ?_,
        .passedOn req site rand t _ free fresh built (constructed_fresh built bad)⟩
      rw [if_neg nofun, sendToWorker_eq (s := s.receive req.self site.task t) chosen inside]
      rfl

theorem responds (inv : ServerInv s) (offered : (.respond : ServerMove W).enabled parse s) :
    ∃ s', (ServerMove.respond : ServerMove W).serve parse s = .ok s' ∧
      Server.Moved parse s .respond s' := by
  have byte : 0 < s.master.notifyPipe := offered
  rw [inv.pipe] at byte
  cases popped : Sequence.popTail s.master.responseQueue with
  | none =>
      rw [Sequence.popTail_eq_none.mp popped] at byte
      exact absurd byte (Nat.lt_irrefl 0)
  | some result =>
      obtain ⟨task, rest⟩ := result
      have member : task ∈ s.master.responseQueue := by
        simp [Sequence.popTail_eq_some.mp popped]
      obtain ⟨t, live, answerable⟩ := inv.answerable task member
      have key := inv.ledger.keys task
      rw [live] at key
      obtain ⟨req, request⟩ := Option.isSome_iff_exists.mp key
      obtain ⟨response, filled⟩ := answerable.fills task (.ofRequest req)
      refine ⟨_, ?_, .answered task req rest t response popped request live filled⟩
      rw [ServerMove.serve, tryRespEventHandler_eq popped request live filled]
      rfl

theorem moved (inv : ServerInv s) (workers : 0 < W) {l : ServerMove W} (offered : l.enabled parse s)
    (served : l.serve parse s = .ok s') : Server.Moved parse s l s' := by
  cases l with
  | request req site rand =>
      obtain ⟨s₁, run, moved⟩ := inv.handles_request workers offered
      cases served.symm.trans run
      exact moved
  | respond =>
      obtain ⟨s₁, run, moved⟩ := inv.responds offered
      cases served.symm.trans run
      exact moved
  | worker i move =>
      obtain ⟨w', run, rfl⟩ := resume_of_serve served
      exact .worker i move w' offered.1 ((inv.worker i).moved offered.2 run)

/-- An enabled move runs through, provided a reply is in range. -/
theorem progress (inv : ServerInv s) (workers : 0 < W) {l : ServerMove W}
    (offered : l.enabled parse s) (inRange : l.InRange s) : ∃ s', l.serve parse s = .ok s' := by
  cases l with
  | request req site rand =>
      obtain ⟨s', run, _⟩ := inv.handles_request workers offered
      exact ⟨s', run⟩
  | respond =>
      obtain ⟨s', run, _⟩ := inv.responds offered
      exact ⟨s', run⟩
  | worker i move =>
      obtain ⟨w', run⟩ := (inv.worker i).progress offered.2 inRange
      exact ⟨s.resume i w', by rw [ServerMove.serve, run]; rfl⟩

theorem of_moved (inv : ServerInv s) {l : ServerMove W} (moved : Server.Moved parse s l s') :
    ServerInv s' := by
  cases moved with
  | rejected req site rand t free fresh built bad => exact inv.reject free fresh bad
  | passedOn req site rand t i free fresh built ready => exact inv.passOn i free fresh ready
  | worker i move w' loop moved => exact inv.resume (moved.advances (inv.worker i) loop)
  | answered task req rest t response popped request => exact inv.answer popped request

theorem of_boots (boots : s.Boots) : ServerInv s := by
  obtain ⟨heap, workers, master, requests, index, history⟩ := boots
  refine ⟨fun i => (World.RunInv.of_boots (workers i)).worker, fun a => ?_,
    ⟨fun a => ?_, ?_, ?_, ?_⟩, ?_, ?_, ?_⟩
  · have none : ∀ i, s.held a i = 0 := by
      intro i
      have nothing := (World.RunInv.of_boots (workers i)).custody a
      rw [s.holdings_focus i a] at nothing
      change _ = (s.heap a).isSome.toNat at nothing
      rw [heap a] at nothing
      change _ = 0 at nothing
      omega
    rw [heap a, Server.places, Finset.sum_eq_zero fun i _ => none i, master]
    rfl
  · rw [heap a, requests a]
    rfl
  · intro req a
    simp [history, requests a, outstanding]
  · intro a
    simp [history, heap a, Undeleted]
  · rw [history]
    trivial
  · rw [master]
    rfl
  · simp [master]
  · simp [index]

theorem of_reachable (workers : 0 < W) {allowed : Server W → ServerMove W → Prop}
    (reached : (serverSystem parse W).Reachable allowed s) : ServerInv s :=
  reached.invariant (fun _ => of_boots) fun _ _ _ inv offered _ served =>
    inv.of_moved (inv.moved workers offered served)

end ServerInv

/-! ## A concrete server

Two workers, and the parser on one text. -/
namespace Sample

/-- A JSON object whose "servers" are "192.0.2.1" alone. -/
def text : List UInt8 :=
  [0x7b, 0x22, 0x73, 0x65, 0x72, 0x76, 0x65, 0x72, 0x73, 0x22, 0x3a, 0x5b, 0x22, 0x31, 0x39, 0x32,
    0x2e, 0x30, 0x2e, 0x32, 0x2e, 0x31, 0x22, 0x5d, 0x7d]

/-- The same with no servers. -/
def emptyText : List UInt8 :=
  [0x7b, 0x22, 0x73, 0x65, 0x72, 0x76, 0x65, 0x72, 0x73, 0x22, 0x3a, 0x5b, 0x5d, 0x7d]

def parse (retData : List UInt8) : Option Value :=
  if retData = text then some (body ["192.0.2.1"])
  else if retData = emptyText then some (body [])
  else none

def server : Server 2 where
  heap _ := none
  workers i := { boot.worker with self := i, threadId := UInt16.ofNat i }
  traces _ := []
  master := { responseQueue := [], notifyPipe := 0 }
  doingRequest _ := none
  randedIndex := none
  history := []

theorem server_boots : server.Boots := by
  refine ⟨fun _ => rfl, fun i => ?_, rfl, fun _ => rfl, rfl, rfl⟩
  exact ⟨fun _ => rfl, rfl, rfl, rfl, rfl, rfl, fun _ => rfl, fun _ => rfl⟩

def first : Fin 2 := ⟨0, Nat.zero_lt_two⟩

/-- A good request and one with a method that is not allowed; the second is
answered while the first waits for its reply, which then arrives. -/
def serverMoves : List (ServerMove 2) :=
  [.request ⟨100, .post, text⟩ ⟨7, raw, 2⟩ 0, .request ⟨101, .get, []⟩ ⟨8, raw, 0⟩ 0,
    .worker first (.notified 50 (sends 60)), .respond, .worker first (.datagram 50 0 0 90)]

def served : Server 2 :=
  ((serverSystem parse 2).follow ServerMove.InRange server serverMoves).get rfl

theorem served_reachable : (serverSystem parse 2).Reachable ServerMove.InRange served :=
  Machine.reachable_of_follow server_boots serverMoves rfl

end Sample
end AsyncPing
