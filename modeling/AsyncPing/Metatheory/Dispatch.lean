import AsyncPing.Library.Dealing
import AsyncPing.Library.Interleaving
import AsyncPing.Metatheory.Accounts

/-!
The Tasks are dealt to the workers in turn. The first worker is drawn at random, and from then
on the index moves by one with each Task, whatever else happens in between.
-/
namespace AsyncPing

variable {W : Nat} {parse : List UInt8 → Option Value} {s s' : Server W}

/-! ## What was accepted -/

/-- An accepted request: its Task, and the number that was drawn when it came. -/
structure Accepted where
  task : TaskPtr
  contents : Task
  rand : Nat

def ServerMove.accepted (parse : List UInt8 → Option Value) : ServerMove W → Option Accepted
  | request req site rand =>
      match HttpHandler.constructed parse req site with
      | none => none
      | some t => if t.prepareError then none else some ⟨site.task, t, rand⟩
  | worker _ _ | respond => none

/-- The accepted requests among these moves, in the order they came. -/
def accepted (parse : List UInt8 → Option Value) (ls : List (ServerMove W)) : List Accepted :=
  ls.filterMap (ServerMove.accepted parse)

/-- Their Tasks, newest first. -/
def Accepted.tasks (requests : List Accepted) : List (TaskPtr × Task) :=
  (requests.map fun request => (request.task, request.contents)).reverse

theorem Accepted.tasks_concat (requests : List Accepted) (request : Accepted) :
    tasks (requests ++ [request]) = (request.task, request.contents) :: tasks requests := by
  rw [tasks, List.map_append, List.reverse_append]
  rfl

theorem Accepted.length_tasks (requests : List Accepted) :
    (tasks requests).length = requests.length := by
  rw [tasks, List.length_reverse, List.length_map]

/-! ## Where it went -/

/-- These requests have been accepted so far. The first of them was given to a worker drawn
then, and the index names the worker whose turn is next. -/
inductive Server.Deals (s : Server W) : List Accepted → Prop
  | none (index : s.randedIndex = none) (idle : ∀ i, dispatched (s.traces i) = []) : Deals s []
  | dealt (request : Accepted) (later : List Accepted) (first : Fin W)
      (drawn : getRandIntvalue request.rand 0 W = (first : Nat))
      (index : s.randedIndex = some (((first + (request :: later).length) % W : Nat) : Int))
      (hands : ∀ i : Fin W, dispatched (s.traces i) =
        Sequence.dealt first W i (Accepted.tasks (request :: later))) :
      Deals s (request :: later)

theorem Server.Deals.of_boots (boots : s.Boots) : s.Deals [] := by
  obtain ⟨_, workers, _, _, index, _⟩ := boots
  refine .none index fun i => ?_
  have empty : s.traces i = [] := (workers i).2.1
  rw [empty]
  rfl

/-- The worker of an accepted request is the one the index names. -/
theorem ServerInv.request_served (inv : ServerInv s) (workers : 0 < W) {req : EvhttpRequest}
    {site : Allocation} {rand : Nat}
    (offered : (ServerMove.request req site rand : ServerMove W).enabled parse s)
    (served : (ServerMove.request req site rand : ServerMove W).serve parse s = .ok s') :
    ∃ t, HttpHandler.constructed parse req site = some t ∧
      (t.prepareError = true ∧ s' = s.reject req.self site.task t ∨
        t.prepareError = false ∧ ∃ i : Fin W, s' = s.passOn req.self site.task t i ∧
          s.randedIndex.getD (getRandIntvalue rand 0 W) = (i : Nat)) := by
  obtain ⟨free, fresh, drawn, returns⟩ := offered
  obtain ⟨t, built⟩ := Option.isSome_iff_exists.mp returns
  refine ⟨t, built, ?_⟩
  have run : HttpServer.handlePingReq parse req site rand s = _ :=
    handlePingReq_eq built (inv.ledger.no_request free)
  rw [ServerMove.serve, run] at served
  cases bad : t.prepareError with
  | true =>
      rw [if_pos bad] at served
      cases served
      exact .inl ⟨rfl, rfl⟩
  | false =>
      obtain ⟨index, chosen⟩ : ∃ index, s.randedIndex.getD (getRandIntvalue rand 0 W) = index :=
        ⟨_, rfl⟩
      have inside : 0 ≤ index ∧ index.toNat < W := by
        rw [← chosen]
        cases last : s.randedIndex with
        | none => exact getRandIntvalue_bounds drawn workers
        | some index => exact inv.index index last
      obtain ⟨k, rfl⟩ := Int.eq_ofNat_of_zero_le inside.1
      have onward : ¬t.prepareError = true := by simp [bad]
      rw [if_neg onward, sendToWorker_eq (s := s.receive req.self site.task t) chosen inside]
        at served
      cases served
      exact .inr ⟨rfl, ⟨k, inside.2⟩, rfl, chosen⟩

theorem passOn_dispatched {req : RequestPtr} {task : TaskPtr} {t : Task} {i j : Fin W} :
    dispatched ((s.passOn req task t i).traces j) =
      if i = j then (task, t) :: dispatched (s.traces j) else dispatched (s.traces j) := by
  change dispatched (Function.update s.traces i _ j) = _
  split
  · rename_i same
    subst same
    rw [Function.update_self]
    rfl
  · rename_i other
    rw [Function.update_of_ne (Ne.symm other)]

/-- The Task goes to the worker whose turn it is. -/
theorem Server.Deals.passOn {requests : List Accepted} {req : RequestPtr} {task : TaskPtr}
    {t : Task} {i : Fin W} {rand : Nat} (deals : s.Deals requests)
    (chosen : s.randedIndex.getD (getRandIntvalue rand 0 W) = (i : Nat)) :
    (s.passOn req task t i).Deals (requests ++ [⟨task, t, rand⟩]) := by
  have next : (((i : Nat) + 1 : Int).tmod W) = ((((i : Nat) + 1) % W : Nat) : Int) := by
    rw [Int.tmod_eq_emod_of_nonneg (by omega)]
    rfl
  cases deals with
  | none index idle =>
      rw [index] at chosen
      refine .dealt ⟨task, t, rand⟩ [] i chosen (congrArg some next) fun j => ?_
      have only : Accepted.tasks [⟨task, t, rand⟩] = [(task, t)] := rfl
      rw [passOn_dispatched, idle j, only, Sequence.dealt, List.length_nil, Nat.add_zero,
        Nat.mod_eq_of_lt i.isLt]
      exact if_congr Fin.ext_iff rfl rfl
  | dealt request later first drawn index hands =>
      rw [index, Option.getD_some, Int.natCast_inj] at chosen
      refine .dealt request (later ++ [⟨task, t, rand⟩]) first drawn ?_ fun j => ?_
      · refine congrArg some (next.trans (congrArg Nat.cast ?_))
        rw [← chosen, Nat.mod_add_mod, ← List.cons_append, List.length_append, Nat.add_assoc]
        rfl
      · rw [passOn_dispatched, hands j, ← List.cons_append, Accepted.tasks_concat, Sequence.dealt,
          Accepted.length_tasks, chosen]
        exact if_congr Fin.ext_iff rfl rfl

theorem Server.Deals.move {requests : List Accepted} (deals : s.Deals requests)
    (inv : ServerInv s) (workers : 0 < W) {l : ServerMove W} (offered : l.enabled parse s)
    (served : l.serve parse s = .ok s') :
    s'.Deals (requests ++ (l.accepted parse).toList) := by
  have still (index : s'.randedIndex = s.randedIndex)
      (same : ∀ i, dispatched (s'.traces i) = dispatched (s.traces i)) :
      s'.Deals (requests ++ []) := by
    rw [List.append_nil]
    cases deals with
    | none index' idle => exact .none (index.trans index') fun i => (same i).trans (idle i)
    | dealt request later first drawn index' hands =>
        exact .dealt request later first drawn (index.trans index') fun i =>
          (same i).trans (hands i)
  cases l with
  | request req site rand =>
      obtain ⟨t, built, ⟨bad, rfl⟩ | ⟨ok, i, rfl, chosen⟩⟩ :=
        inv.request_served workers offered served
      · rw [ServerMove.accepted, built]
        simp only [bad]
        exact still rfl fun _ => rfl
      · rw [ServerMove.accepted, built]
        simp only [ok]
        exact deals.passOn chosen
  | respond =>
      cases inv.moved workers offered served with
      | answered => exact still rfl fun _ => rfl
  | worker i move =>
      obtain ⟨w', run, rfl⟩ := resume_of_serve served
      refine still rfl fun j => ?_
      change dispatched (Function.update s.traces i w'.trace j) = _
      by_cases same : j = i
      · subst same
        rw [Function.update_self]
        exact congrArg Prod.snd (WorkerMove.serve_account offered.1 run)
      · rw [Function.update_of_ne same]

theorem Server.Deals.run {requests : List Accepted} {ls : List (ServerMove W)}
    (deals : s.Deals requests) (inv : ServerInv s) (workers : 0 < W)
    (run : (serverSystem parse W).Makes s ls s') : s'.Deals (requests ++ accepted parse ls) := by
  induction run generalizing requests with
  | nil => rwa [accepted, List.filterMap_nil, List.append_nil]
  | @cons s s₁ t l ls offered served _ ih =>
      have moved := deals.move inv workers offered served
      have later := ih moved (inv.of_moved (inv.moved workers offered served))
      have split : accepted parse (l :: ls) = (l.accepted parse).toList ++ accepted parse ls := by
        rw [accepted, List.filterMap_cons]
        cases l.accepted parse <;> rfl
      rwa [split, ← List.append_assoc]

/-- In every run the accepted requests are dealt to the workers in turn, as they came, and the
first of them to the worker drawn then; so no worker is ever sent more than one Task more than
another. -/
theorem tasks_dealt (parse : List UInt8 → Option Value) (workers : 0 < W) {s₀ : Server W}
    (boots : s₀.Boots) {ls : List (ServerMove W)} (run : (serverSystem parse W).Makes s₀ ls s) :
    ∃ first : Fin W,
      (∀ request ∈ (accepted parse ls).head?,
        getRandIntvalue request.rand 0 W = (first : Nat)) ∧
      (∀ i : Fin W, dispatched (s.traces i) =
        Sequence.dealt first W i (Accepted.tasks (accepted parse ls))) ∧
      ∀ i j, (dispatched (s.traces i)).length ≤ (dispatched (s.traces j)).length + 1 := by
  have deals := (Server.Deals.of_boots boots).run (.of_boots boots) workers run
  rw [List.nil_append] at deals
  generalize accepted parse ls = requests at deals
  cases deals with
  | none index idle =>
      refine ⟨⟨0, workers⟩, nofun, idle, fun i j => ?_⟩
      rw [idle i, idle j]
      exact Nat.zero_le _
  | dealt request later first drawn index hands =>
      refine ⟨first, fun other head => ?_, hands, fun i j => ?_⟩
      · cases head
        exact drawn
      · rw [hands i, hands j]
        exact Sequence.dealt_even _ first.isLt i.isLt j.isLt

namespace Sample

/-- Two good requests and one that is not; the draw names the second worker. -/
def dealtMoves : List (ServerMove 2) :=
  [.request ⟨100, .post, text⟩ ⟨7, raw, 2⟩ 1500000000, .request ⟨101, .get, []⟩ ⟨8, raw, 0⟩ 0,
    .request ⟨102, .post, text⟩ ⟨9, raw, 2⟩ 0]

def dealt : Server 2 :=
  ((serverSystem Sample.parse 2).follow (fun _ _ => True) server dealtMoves).get rfl

theorem dealt_makes : (serverSystem Sample.parse 2).Makes server dealtMoves dealt :=
  .cons (by decide) rfl (.cons (by decide) rfl (.cons (by decide) rfl (.nil _)))

end Sample

theorem tasks_dealt_sample : ∃ first : Fin 2,
    (∀ request ∈ (accepted Sample.parse Sample.dealtMoves).head?,
      getRandIntvalue request.rand 0 2 = (first : Nat)) ∧
    (∀ i : Fin 2, dispatched (Sample.dealt.traces i) =
      Sequence.dealt first 2 i (Accepted.tasks (accepted Sample.parse Sample.dealtMoves))) ∧
    ∀ i j, (dispatched (Sample.dealt.traces i)).length ≤
      (dispatched (Sample.dealt.traces j)).length + 1 :=
  tasks_dealt Sample.parse (by decide) Sample.server_boots Sample.dealt_makes

end AsyncPing
