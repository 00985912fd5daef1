import AsyncPing.Metatheory.WorkerInvariant

/-!
What the constructor leaves of an accepted body. The loop over the servers
counts in an unsigned short; when it ends, every entry of the array has been
filled in, whatever the number of turns.
-/
namespace AsyncPing

/-- An entry after its turn of the loop. -/
structure Ping.Filled (task : TaskPtr) (servers : Value) (timeout : Int32) (i : Nat) (p : Ping) :
    Prop where
  index : p.index.toNat = i
  status : p.status = .uninited
  parent : p.parentTask = some task
  delay : p.timeout = timeout
  ip : ∃ server, servers.element i = .ok server ∧ server.asString = .ok p.ip

/-- The constructor returns normally. -/
def Returns {α : Type} (m : ExceptT Thrown Option α) (a : α) : Prop := m.run = some (.ok a)

/-- A constructor that returns has got past each of its accessors. -/
theorem Returns.of_lift {α β : Type} {m : Except Thrown α} {k : α → ExceptT Thrown Option β}
    {b : β} (run : Returns (liftM m >>= k) b) : ∃ a, m = .ok a ∧ Returns (k a) b := by
  cases m with
  | error thrown => cases run
  | ok a => exact ⟨a, rfl, run⟩

theorem Returns.of_bind {α β : Type} {m : ExceptT Thrown Option α}
    {k : α → ExceptT Thrown Option β} {b : β} (run : Returns (m >>= k) b) :
    ∃ a, Returns m a ∧ Returns (k a) b := by
  simp only [Returns, ExceptT.run_bind] at run
  cases result : m.run with
  | none =>
      rw [result] at run
      cases run
  | some outcome =>
      rw [result] at run
      cases outcome with
      | error thrown => cases run
      | ok a => exact ⟨a, result, run⟩

namespace Task
section fill
variable {self : TaskPtr} {servers : Value} {timeout : Int32} {size : Int}

/-- A turn of the loop that does not throw. -/
theorem fillPings_turn {fuel : Nat} {i : UInt16} {pingArray filled : List Ping}
    (more : (i.toNat : Int) < size)
    (run : Returns (fillPings self servers timeout size (fuel + 1) i pingArray) filled) :
    ∃ server ip, servers.element i.toNat = .ok server ∧ server.asString = .ok ip ∧
      Returns (fillPings self servers timeout size fuel (i + 1)
        (pingArray.modify i.toNat fun p =>
          { p with index := i, ip, timeout, status := .uninited, parentTask := some self }))
        filled := by
  rw [fillPings, if_pos more] at run
  obtain ⟨server, at_i, run⟩ := run.of_lift
  obtain ⟨ip, text, rest⟩ := run.of_lift
  exact ⟨server, ip, at_i, text, rest⟩

/-- When the loop ends, it has filled in every entry. -/
theorem fillPings_filled (fuel : Nat) (i : UInt16) (pingArray filled : List Ping)
    (length : (pingArray.length : Int) = size)
    (before : ∀ (j : Nat) (p : Ping), pingArray[j]? = some p → j < i.toNat →
      p.Filled self servers timeout j)
    (run : Returns (fillPings self servers timeout size fuel i pingArray) filled) :
    filled.length = pingArray.length ∧
      ∀ (j : Nat) (p : Ping), filled[j]? = some p → p.Filled self servers timeout j := by
  induction fuel generalizing i pingArray with
  | zero => cases run
  | succ fuel ih =>
      by_cases more : (i.toNat : Int) < size
      · obtain ⟨server, ip, at_i, text, rest⟩ := fillPings_turn more run
        have next : (i + 1).toNat = (i.toNat + 1) % 65536 := by
          rw [UInt16.toNat_add]
          rfl
        have soFar : ∀ (j : Nat) (p : Ping),
            (pingArray.modify i.toNat fun p => { p with
              index := i, ip, timeout, status := .uninited, parentTask := some self })[j]? =
              some p → j < (i + 1).toNat → p.Filled self servers timeout j := by
          intro j p entry below
          rw [List.getElem?_modify] at entry
          obtain ⟨q, old, rfl⟩ := Option.map_eq_some_iff.mp entry
          split
          · rename_i same
            subst same
            exact ⟨rfl, rfl, rfl, rfl, server, at_i, text⟩
          · exact before j q old (by omega)
        obtain ⟨sameLength, all⟩ := ih (i + 1) _ (by rw [List.length_modify]; exact length)
          soFar rest
        exact ⟨sameLength.trans (List.length_modify ..), all⟩
      · rw [fillPings, if_neg more] at run
        cases run
        refine ⟨rfl, fun j p entry => before j p entry ?_⟩
        have bound := (List.getElem?_eq_some_iff.mp entry).1
        omega

end fill

theorem accepted_returns {self : TaskPtr} {raw : RawMemory} {fuel : Nat} {body : Value}
    {t : Task} (run : accepted self raw fuel body = some t) :
    Returns (ofJson self raw fuel body) t ∧ t.prepareError = false := by
  simp only [accepted] at run
  split at run
  · rename_i built returned
    split at run
    · cases run
    · rename_i passed
      rw [Option.some.injEq] at run
      subst run
      exact ⟨returned, by simpa using passed⟩
  · cases run

/-- An accepted body: its servers, and the array filled in from them. -/
theorem accepted_filled {self : TaskPtr} {raw : RawMemory} {fuel : Nat} {body : Value} {t : Task}
    (run : accepted self raw fuel body = some t) :
    t.preErrorCode = 0 ∧ t.doneCount = 0 ∧ t.totalCount = t.pings.length ∧
      ∃ timeout servers, 0 < timeout ∧ body.member "servers" = .ok servers ∧
        t.totalCount = servers.size.toInt32.toInt ∧
        ∀ (i : Nat) (p : Ping), t.pings[i]? = some p → p.Filled self servers timeout i := by
  obtain ⟨returned, passed⟩ := accepted_returns run
  simp only [ofJson] at returned
  split at returned
  · cases returned
    cases passed
  obtain ⟨entry, _, returned⟩ := returned.of_lift
  obtain ⟨timeout, _, returned⟩ := returned.of_lift
  split at returned
  · cases returned
    cases passed
  rename_i positive
  obtain ⟨servers, found, returned⟩ := returned.of_lift
  split at returned
  · cases returned
    cases passed
  split at returned
  · cases returned
    cases passed
  split at returned
  · cases returned
  rename_i nonneg
  obtain ⟨filled, loop, returned⟩ := returned.of_bind
  cases returned
  obtain ⟨length, all⟩ := fillPings_filled fuel 0 _ filled
    (by simp only [List.length_map, List.length_range]; omega) (by simp) loop
  simp only [List.length_map, List.length_range] at length
  refine ⟨rfl, rfl, ?_, timeout, servers, ?_, found, rfl, all⟩
  · change servers.size.toInt32.toInt = (filled.length : Int)
    omega
  · exact Int32.not_le.mp positive

theorem accepted_fresh {self : TaskPtr} {raw : RawMemory} {fuel : Nat} {body : Value} {t : Task}
    (run : accepted self raw fuel body = some t) : t.Fresh self := by
  obtain ⟨noCode, uncounted, total, timeout, servers, _, _, _, all⟩ := accepted_filled run
  refine ⟨(accepted_returns run).2, noCode, total, uncounted, fun i p entry => ?_⟩
  have filled := all i p entry
  exact ⟨filled.index, filled.status, filled.parent⟩

/-- The int that holds a small count. -/
theorem size_toInt {n : Nat} (fits : n ≤ 65536) : (UInt32.ofNat n).toInt32.toInt = n := by
  have toNat : (UInt32.ofNat n).toNat = n := by
    rw [UInt32.toNat_ofNat']
    exact Nat.mod_eq_of_lt (by omega)
  have positive : 2 * (UInt32.ofNat n).toBitVec.toNat < 2 ^ 32 := by
    rw [UInt32.toNat_toBitVec, toNat]
    omega
  change (UInt32.ofNat n).toBitVec.toInt = n
  rw [BitVec.toInt_eq_toNat_of_lt positive, UInt32.toNat_toBitVec, toNat]

/-- The addresses of an accepted body, in its order. -/
theorem accepted_ips {self : TaskPtr} {raw : RawMemory} {fuel : Nat} {body : Value} {t : Task}
    {ips : List String} (run : accepted self raw fuel body = some t)
    (servers : body.member "servers" = .ok (.arrayValue (ips.map .stringValue)))
    (fits : ips.length < 65536) : t.pings.map Ping.ip = ips := by
  obtain ⟨_, _, total, _, found, _, at_servers, size, all⟩ := accepted_filled run
  rw [servers, Except.ok.injEq] at at_servers
  subst at_servers
  have length : t.pings.length = ips.length := by
    rw [Value.size, List.length_map, size_toInt fits.le] at size
    omega
  refine List.ext_getElem ((List.length_map ..).trans length) fun i inside inside' => ?_
  rw [List.length_map] at inside
  obtain ⟨server, element, text⟩ := (all i _ (List.getElem?_eq_getElem inside)).ip
  rw [Value.element, List.getElem?_map, List.getElem?_eq_getElem inside'] at element
  cases element
  rw [List.getElem_map]
  exact (Except.ok.inj text).symm

end Task

namespace Sample

def raw : RawMemory where
  timestamp := 0
  ping _ := {
    index := 0, ip := "", timeout := 0, status := .uninited, sendtime := 0, recvtime := 0,
    worker := none, parentTask := none, timeoutEvent := none, tv := none }

def body (ips : List String) : Value :=
  .objectValue [("servers", .arrayValue (ips.map .stringValue))]

end Sample
end AsyncPing
