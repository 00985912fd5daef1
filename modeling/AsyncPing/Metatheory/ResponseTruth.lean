import AsyncPing.Metatheory.WorkerRuns
import Mathlib.Data.Rat.Cast.Order

/-!
What the response says. The builder assigns the members of `body` one by one;
for a task without error the outcome is one entry for each ping, in order. Of a
task that was handed back complete each entry tells what happened to the ping in
the run: answered, with the time between the two readings of the clock, or lost.
-/
namespace AsyncPing
open TaskWorker

namespace Task

/-- The entry for one ping. -/
def result (p : Ping) : Value :=
  if p.status = .success then
    .objectValue [("avgRtt", .realValue (.finite p.cost)), ("ip", .stringValue p.ip),
      ("lossRate", .realValue (.finite 0))]
  else .objectValue [("ip", .stringValue p.ip), ("lossRate", .realValue (.finite 1))]

/-- The body of a response without error. -/
def response : List Value → Value
  | [] => .objectValue [("errMsg", .stringValue ""), ("success", .booleanValue true)]
  | v :: results => .objectValue [("errMsg", .stringValue ""),
      ("results", .arrayValue (v :: results)), ("success", .booleanValue true)]

theorem response_append (results : List Value) (v : Value) :
    response (results ++ [v]) = .objectValue [("errMsg", .stringValue ""),
      ("results", .arrayValue (results ++ [v])), ("success", .booleanValue true)] := by
  cases results <;> rfl

/-- The first assignment to an entry creates it. -/
theorem modify_new (f : Value → Value) (results : List Value) :
    Value.modifyMember "results" (Value.modifyElement results.length f) (response results) =
      response (results ++ [f .nullValue]) := by
  rw [response_append]
  cases results with
  | nil =>
      simp [response, Value.modifyMember, Value.updateMembers, Value.precedes,
        Value.modifyElement, Value.updateElements]
  | cons v results =>
      simp [response, Value.modifyMember, Value.updateMembers, Value.precedes,
        Value.modifyElement, Value.updateElements, Value.updateElements_length]

theorem modify_last (f : Value → Value) (results : List Value) (v : Value) :
    Value.modifyMember "results" (Value.modifyElement results.length f)
      (response (results ++ [v])) = response (results ++ [f v]) := by
  rw [response_append, response_append]
  simp [Value.modifyMember, Value.updateMembers, Value.precedes, Value.modifyElement,
    Value.updateElements_append]

theorem writeResult_eq (p : Ping) (results : List Value) :
    writeResult results.length p (response results) = response (results ++ [result p]) := by
  by_cases success : p.status = .success
  · simp only [writeResult, modify_new, modify_last, success, if_true, result]
    simp [Value.modifyMember, Value.updateMembers, Value.precedes]
  · simp only [writeResult, modify_new, modify_last, success, if_false, result]
    simp [Value.modifyMember, Value.updateMembers, Value.precedes]

/-- The loop appends the entries of the remaining pings. -/
theorem writeResults_eq (self : TaskPtr) (t : Task) (remaining i : Nat) (results : List Value)
    (written : results.length = i) (fits : i + remaining = t.pings.length) :
    writeResults self t remaining i (response results) =
      .ok (response (results ++ (t.pings.drop i).map result)) := by
  induction remaining generalizing i results with
  | zero =>
      have none : t.pings.drop i = [] := List.drop_eq_nil_iff.mpr (by omega)
      rw [writeResults, none, List.map_nil, List.append_nil]
  | succ remaining ih =>
      subst written
      have inside : results.length < t.pings.length := by omega
      have entry : t.pings[results.length]? = some t.pings[results.length] :=
        List.getElem?_eq_getElem inside
      have length : (results ++ [result t.pings[results.length]]).length = results.length + 1 :=
        List.length_append
      rw [writeResults, entry]
      change writeResults self t remaining (results.length + 1) (writeResult _ _ _) = _
      rw [writeResult_eq, ih _ _ length (by omega), List.append_assoc,
        ← List.cons_getElem_drop_succ (h := inside)]
      rfl

theorem buildResponse_eq (self : TaskPtr) (t : Task) (total : t.totalCount = t.pings.length)
    (ok : t.prepareError = false) :
    t.buildResponse self = .ok (response (t.pings.map result)) := by
  have start : ((Value.nullValue.modifyMember "success" fun _ => .booleanValue true).modifyMember
      "errMsg" fun _ => .stringValue "") = response [] := by
    simp [Value.modifyMember, Value.updateMembers, Value.precedes, response]
  rw [buildResponse, ok, if_neg nofun, start,
    writeResults_eq self t _ 0 [] rfl (by omega), List.drop_zero, List.nil_append]

end Task

/-! ## Against the run -/

def INT64_MAX : Nat := 9223372036854775807

/-- The signed difference of two readings, in microseconds. -/
theorem elapsed {sendtime recvtime : UInt64} (ordered : sendtime ≤ recvtime)
    (fits : recvtime.toNat ≤ INT64_MAX) :
    (recvtime.toInt64 - sendtime.toInt64).toInt = recvtime.toNat - sendtime.toNat := by
  have order : sendtime.toNat ≤ recvtime.toNat := UInt64.le_iff_toNat_le.mp ordered
  rw [INT64_MAX] at fits
  have signed {time : UInt64} (small : time.toNat ≤ 9223372036854775807) :
      time.toInt64.toInt = time.toNat := by
    have positive : 2 * time.toBitVec.toNat < 18446744073709551616 := by
      rw [UInt64.toNat_toBitVec]
      omega
    change time.toBitVec.toInt = time.toNat
    rw [BitVec.toInt_eq_toNat_of_lt positive, UInt64.toNat_toBitVec]
  rw [Int64.toInt_sub, signed fits, signed (Nat.le_trans order fits)]
  exact Int.bmod_eq_of_le (by omega) (by omega)

/-- The entry of a ping against its history. -/
inductive World.Tells (s : World) (a : TaskPtr) (i : Nat) (ip : String) : Value → Prop
  | answered (request : EchoRequest) (sendtime recvtime : UInt64)
      (log : pingLog a i s.trace = [.success recvtime, .send request sendtime, .start])
      (ordered : sendtime ≤ recvtime) :
      Tells s a i ip (.objectValue
        [("avgRtt", .realValue (.finite (((recvtime.toNat : Rat) - sendtime.toNat) / 1000))),
          ("ip", .stringValue ip), ("lossRate", .realValue (.finite 0))])
  | lost (log : pingLog a i s.trace = [.sendError, .start] ∨
        ∃ request sendtime, pingLog a i s.trace = [.timeout, .send request sendtime, .start]) :
      Tells s a i ip (.objectValue [("ip", .stringValue ip), ("lossRate", .realValue (.finite 1))])

/-- The entry of a ping, whatever the clock did: its time is the signed difference of two
readings. -/
inductive World.Recounts (s : World) (a : TaskPtr) (i : Nat) (ip : String) : Value → Prop
  | answered (request : EchoRequest) (sendtime recvtime : UInt64)
      (log : pingLog a i s.trace = [.success recvtime, .send request sendtime, .start]) :
      Recounts s a i ip (.objectValue
        [("avgRtt", .realValue (.finite ((recvtime.toInt64 - sendtime.toInt64).toInt / 1000))),
          ("ip", .stringValue ip), ("lossRate", .realValue (.finite 0))])
  | lost (log : pingLog a i s.trace = [.sendError, .start] ∨
        ∃ request sendtime, pingLog a i s.trace = [.timeout, .send request sendtime, .start]) :
      Recounts s a i ip
        (.objectValue [("ip", .stringValue ip), ("lossRate", .realValue (.finite 1))])

/-- No ping is open, and the results are one true entry for each server. -/
structure World.Truthful (s : World) (a : TaskPtr) (t : Task) (ips : List String) : Prop where
  finished : ∀ p ∈ t.pings, p.status ≠ .uninited ∧ p.status ≠ .doing
  results : ∃ results, t.buildResponse a = .ok (Task.response results) ∧
    results.length = ips.length ∧
    ∀ (i : Nat) ip, ips[i]? = some ip → ∃ v, results[i]? = some v ∧ s.Tells a i ip v

/-- The history of a closed ping is that of an answer or that of a loss. -/
theorem Ping.Agrees.closed {self : Nat} {event : EventPtr} {request : EchoRequest}
    {clock : List UInt64} {p : Ping} {log : List PingEvent} {timer : Option Int32}
    (agrees : p.Agrees self event request clock log timer) (terminal : p.status.terminal = true) :
    (∃ sendtime recvtime, p.status = .success ∧
        log = [.success recvtime, .send request sendtime, .start] ∧
        p.sendtime = sendtime.toInt64 ∧ p.recvtime = recvtime.toInt64 ∧ recvtime ∈ clock ∧
        (clock.Pairwise (· ≥ ·) → sendtime ≤ recvtime)) ∨
      (p.status ≠ .success ∧ (log = [.sendError, .start] ∨
        ∃ sendtime, log = [.timeout, .send request sendtime, .start])) := by
  cases agrees with
  | uninited status | doing _ status =>
      rw [status] at terminal
      cases terminal
  | sendError status => exact .inr ⟨by rw [status]; exact nofun, .inl rfl⟩
  | success sendtime recvtime status sent received read ordered =>
      exact .inl ⟨sendtime, recvtime, status, rfl, sent, received, read.2, ordered⟩
  | timeout sendtime status =>
      exact .inr ⟨by rw [status]; exact nofun, .inr ⟨sendtime, rfl⟩⟩

section truth
variable {s : World} {a : TaskPtr} {t : Task} {i : Nat} {p : Ping}

theorem World.Serving.recounts (serving : s.Serving a t) (entry : t.pings[i]? = some p)
    (terminal : p.status.terminal = true) : s.Recounts a i p.ip (Task.result p) := by
  rcases (serving.entry i p entry).agrees.closed terminal with
    ⟨sendtime, recvtime, success, log, sent, received, -, -⟩ | ⟨failed, log⟩
  · rw [Task.result, if_pos success, Ping.cost, sent, received]
    exact .answered _ sendtime recvtime log
  · rw [Task.result, if_neg failed]
    exact .lost (log.imp_right fun ⟨sendtime, history⟩ => ⟨_, sendtime, history⟩)

theorem World.Serving.tells (serving : s.Serving a t) (entry : t.pings[i]? = some p)
    (terminal : p.status.terminal = true) (steady : (readings s.trace).Pairwise (· ≥ ·))
    (small : ∀ time ∈ readings s.trace, time.toNat ≤ INT64_MAX) :
    s.Tells a i p.ip (Task.result p) := by
  rcases (serving.entry i p entry).agrees.closed terminal with
    ⟨sendtime, recvtime, success, log, sent, received, read, ordered⟩ | ⟨failed, log⟩
  · have inOrder := ordered steady
    have cost : p.cost = ((recvtime.toNat : Rat) - sendtime.toNat) / 1000 := by
      rw [Ping.cost, sent, received, elapsed inOrder (small recvtime read),
        Int.cast_sub, Int.cast_natCast, Int.cast_natCast]
    rw [Task.result, if_pos success, cost]
    exact .answered _ sendtime recvtime log inOrder
  · rw [Task.result, if_neg failed]
    exact .lost (log.imp_right fun ⟨sendtime, history⟩ => ⟨_, sendtime, history⟩)

end truth

/-- The response to an accepted request, once its task was handed back complete. -/
theorem response_truthful (ips : List String) (fits : ips.length < 65536) (a : TaskPtr)
    (raw : RawMemory) (fuel : Nat) (body : Value) (t₀ : Task)
    (servers : body.member "servers" = .ok (.arrayValue (ips.map .stringValue)))
    (accepted : Task.accepted a raw fuel body = some t₀)
    (s : World) (reached : workerSystem.Reachable WorkerMove.InRange s)
    (enqueued : origin a s.trace = some t₀) (t : Task) (live : s.heap a = some t)
    (response : a ∈ s.master.responseQueue) (ok : t.prepareError = false)
    (steady : (readings s.trace).Pairwise (· ≥ ·))
    (small : ∀ time ∈ readings s.trace, time.toNat ≤ INT64_MAX) : s.Truthful a t ips := by
  have inv := World.RunInv.of_reachable reached
  have free := (inv.responses a response).free
  cases inv.of_live live with
  | queued member => exact absurd (.inl member) free
  | doing held => exact absurd (.inr held) free
  | refused _ t₁ _ _ _ marked =>
      rw [marked] at ok
      cases ok
  | returned _ _ _ serving all _ =>
      have terminal := serving.all_terminal (by omega)
      have sameIps : t.pings.map Ping.ip = ips := by
        obtain ⟨t₁, enqueued', same⟩ := serving.source
        rw [enqueued, Option.some.injEq] at enqueued'
        rw [← same, ← enqueued']
        exact Task.accepted_ips accepted servers fits
      refine ⟨?_, t.pings.map Task.result, t.buildResponse_eq a serving.total ok, ?_, ?_⟩
      · intro p member
        have closed := terminal p member
        constructor <;> intro status <;> rw [status] at closed <;> cases closed
      · rw [← sameIps, List.length_map, List.length_map]
      · intro i ip at_i
        rw [← sameIps, List.getElem?_map] at at_i
        obtain ⟨p, entry, rfl⟩ := Option.map_eq_some_iff.mp at_i
        refine ⟨Task.result p, by rw [List.getElem?_map, entry]; rfl, ?_⟩
        exact serving.tells entry (terminal p (List.mem_of_getElem? entry)) steady small

namespace Sample

/-- The first server answers too, at time 95. -/
def answeredMoves : List WorkerMove := moves ++ [.datagram 50 0 0 95]

def answered : World := (workerSystem.follow WorkerMove.InRange boot answeredMoves).get rfl

theorem answered_reachable : workerSystem.Reachable WorkerMove.InRange answered :=
  Machine.reachable_of_follow boots answeredMoves rfl

theorem answered_clock : readings answered.trace = [95, 90, 60, 60, 50] := rfl

end Sample

theorem response_truthful_answered :
    Sample.answered.Truthful 7 ((Sample.answered.heap 7).get rfl)
      ["192.0.2.1", "192.0.2.2"] := by
  refine response_truthful ["192.0.2.1", "192.0.2.2"] (by decide) 7 Sample.raw 3
    (Sample.body ["192.0.2.1", "192.0.2.2"]) _ rfl (Option.some_get rfl).symm Sample.answered
    Sample.answered_reachable rfl _ (Option.some_get rfl).symm (by decide) rfl ?_ ?_
  · rw [Sample.answered_clock]
    decide
  · rw [Sample.answered_clock]
    simp [INT64_MAX]

end AsyncPing
