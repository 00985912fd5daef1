import AsyncPing.Metatheory.TaskConstructor

/-!
The loop over the servers, turn by turn. Its counter is an unsigned short, so
it passes every bound below 65536 and never reaches 65536 itself.
-/
namespace AsyncPing

/-- The entry that turn `i` writes. -/
def Ping.fill (self : TaskPtr) (timeout : Int32) (ips : List String) (i : Nat) (p : Ping) : Ping :=
  { p with
    index := UInt16.ofNat i, ip := ips.getD i "", timeout, status := .uninited
    parentTask := some self }

theorem lift_ok {α β : Type} (a : α) (k : α → ExceptT Thrown Option β) :
    (liftM (Except.ok a : Except Thrown α) >>= k) = k a := rfl

/-- Only null and objects have members. -/
theorem Value.isObject_of_member {body v : Value} {key : String}
    (found : body.member key = .ok v) : body.isObject = true := by
  cases body with
  | nullValue | objectValue members => rfl
  | _ => cases found

/-- An object without the member has null there. -/
theorem Value.member_of_isObject {body : Value} (key : String) (object : body.isObject = true) :
    ∃ v, body.member key = .ok v := by
  cases body with
  | nullValue => exact ⟨.nullValue, rfl⟩
  | objectValue members => exact ⟨_, rfl⟩
  | _ => cases object

namespace Task

/-- Each of the servers reads as the address at its position. -/
def Reads (servers : Value) (ips : List String) : Prop :=
  ∀ i, i < ips.length → ∃ server, servers.element i = .ok server ∧
    server.asString = .ok (ips.getD i "")

/-- The array when turns `k` and later are over. -/
def filledFrom (self : TaskPtr) (timeout : Int32) (ips : List String) (k : Nat)
    (memory : List Ping) : List Ping :=
  memory.mapIdx fun i p => if k ≤ i ∧ i < ips.length then p.fill self timeout ips i else p

/-- `new Ping[n]`. -/
def freshPings (raw : RawMemory) (n : Nat) : List Ping :=
  (List.range n).map fun i => Ping.new (raw.ping i)

theorem freshPings_length (raw : RawMemory) (n : Nat) : (freshPings raw n).length = n := by
  rw [freshPings, List.length_map, List.length_range]

theorem reads_strings (ips : List String) : Reads (.arrayValue (ips.map .stringValue)) ips := by
  intro i inside
  refine ⟨.stringValue (ips.getD i ""), ?_, rfl⟩
  rw [Value.element, List.getElem?_map, List.getElem?_eq_getElem inside, List.getD_eq_getElem?_getD,
    List.getElem?_eq_getElem inside]
  rfl

section table
variable {self : TaskPtr} {servers : Value} {timeout : Int32} {ips : List String}

theorem filledFrom_getElem? (k : Nat) (memory : List Ping) (i : Nat) :
    (filledFrom self timeout ips k memory)[i]? = memory[i]?.map fun p =>
      if k ≤ i ∧ i < ips.length then p.fill self timeout ips i else p :=
  List.getElem?_mapIdx

theorem filledFrom_length (k : Nat) (memory : List Ping) :
    (filledFrom self timeout ips k memory).length = memory.length :=
  List.length_mapIdx

/-- No turn is left when the bound is reached. -/
theorem filledFrom_end (memory : List Ping) :
    filledFrom self timeout ips ips.length memory = memory := by
  apply List.ext_getElem?
  intro i
  rw [filledFrom_getElem?]
  have never : ¬ (ips.length ≤ i ∧ i < ips.length) := by omega
  simp only [if_neg never, Option.map_id']

/-- Turn `k`, then the later ones. -/
theorem filledFrom_modify (k : Nat) (memory : List Ping) (inside : k < ips.length) :
    filledFrom self timeout ips (k + 1) (memory.modify k (Ping.fill self timeout ips k)) =
      filledFrom self timeout ips k memory := by
  apply List.ext_getElem?
  intro i
  rw [filledFrom_getElem?, filledFrom_getElem?, List.getElem?_modify, Option.map_eq_map,
    Option.map_map]
  congr 1
  funext p
  rw [Function.comp_apply]
  by_cases here : k = i
  · subst here
    have later : ¬ (k + 1 ≤ k ∧ k < ips.length) := by omega
    rw [if_pos rfl, if_neg later, if_pos ⟨Nat.le_refl k, inside⟩]
  · rw [if_neg here]
    have sameTurn : (k + 1 ≤ i ∧ i < ips.length) ↔ (k ≤ i ∧ i < ips.length) := by omega
    exact if_congr sameTurn rfl rfl

/-- A turn whose server reads as a string. -/
theorem fillPings_succ (reads : Reads servers ips) {size : Int} (fuel : Nat) (i : UInt16)
    (memory : List Ping) (more : (i.toNat : Int) < size) (inside : i.toNat < ips.length) :
    fillPings self servers timeout size (fuel + 1) i memory =
      fillPings self servers timeout size fuel (i + 1)
        (memory.modify i.toNat (Ping.fill self timeout ips i.toNat)) := by
  obtain ⟨server, at_i, text⟩ := reads i.toNat inside
  have written : (fun p : Ping => { p with
      index := i, ip := ips.getD i.toNat "", timeout, status := .uninited,
      parentTask := some self }) = Ping.fill self timeout ips i.toNat := by
    funext p
    rw [Ping.fill, UInt16.ofNat_toNat]
  rw [fillPings, if_pos more, at_i, lift_ok, text, lift_ok, ← written]

/-- Below the edge the loop makes one turn for each address that is left: with
as many tests or fewer it is still running, with one more it has ended. -/
theorem fillPings_run (reads : Reads servers ips) (small : ips.length < 65536) (fuel : Nat)
    (i : UInt16) (memory : List Ping) (below : i.toNat ≤ ips.length) :
    (fillPings self servers timeout ips.length fuel i memory).run =
      if ips.length - i.toNat < fuel
      then some (.ok (filledFrom self timeout ips i.toNat memory)) else none := by
  induction fuel generalizing i memory with
  | zero => rfl
  | succ fuel ih =>
      by_cases inside : i.toNat < ips.length
      · have next : (i + 1).toNat = i.toNat + 1 := by
          rw [UInt16.toNat_add]
          exact Nat.mod_eq_of_lt (by change i.toNat + 1 < 65536; omega)
        rw [fillPings_succ reads fuel i memory (by omega) inside, ih _ _ (by omega), next,
          filledFrom_modify _ _ inside]
        congr 1
        apply propext
        omega
      · have done : i.toNat = ips.length := by omega
        have ended : ¬ (i.toNat : Int) < ips.length := by omega
        rw [fillPings, if_neg ended, done, filledFrom_end, if_pos (by omega)]
        rfl

/-- The whole loop. -/
theorem fillPings_whole (reads : Reads servers ips) (small : ips.length < 65536)
    (memory : List Ping) (fuel : Nat) :
    (fillPings self servers timeout ips.length fuel 0 memory).run =
      if ips.length < fuel then some (.ok (filledFrom self timeout ips 0 memory)) else none :=
  fillPings_run reads small fuel 0 memory (Nat.zero_le _)

/-- At the edge every value of the counter passes the test. -/
theorem fillPings_never (reads : Reads servers ips) (full : ips.length = 65536) (fuel : Nat)
    (i : UInt16) (memory : List Ping) :
    (fillPings self servers timeout ips.length fuel i memory).run = none := by
  induction fuel generalizing i memory with
  | zero => rfl
  | succ fuel ih =>
      have inside : i.toNat < ips.length := by
        rw [full]
        exact i.toNat_lt
      rw [fillPings_succ reads fuel i memory (by omega) inside]
      exact ih (i + 1) _

/-- What the constructor does with a body whose timeout is positive. -/
theorem ofJson_past {raw : RawMemory} {body entry : Value} (fuel : Nat)
    (found : body.get "timeout" (.intValue 5) = .ok entry) (delay : entry.asInt = .ok timeout)
    (positive : 0 < timeout) (at_servers : body.member "servers" = .ok servers) :
    ofJson self raw fuel body =
      if servers.isNull || !servers.isArray then pure (ofErrorCode raw 1003)
      else if servers.size.toInt32.toInt > MAX_PING_PER_TASK then pure (ofErrorCode raw 1004)
      else if servers.size.toInt32.toInt < 0 then throw .badArrayLength
      else do
        let pingArray ← fillPings self servers timeout servers.size.toInt32.toInt fuel 0
          (freshPings raw servers.size.toInt32.toInt.toNat)
        return { ofErrorCode raw 0 with
          prepareError := false, totalCount := servers.size.toInt32.toInt
          pingArray := some pingArray } := by
  have object := Value.isObject_of_member at_servers
  have early : ¬ timeout ≤ 0 := Int32.not_le.mpr positive
  simp only [ofJson, object, found, lift_ok, delay, early, at_servers]
  rfl

/-- The task of a body with these addresses. -/
def tableTask (self : TaskPtr) (raw : RawMemory) (timeout : Int32) (ips : List String) : Task where
  prepareError := false
  preErrorCode := 0
  timestamp := raw.timestamp
  totalCount := ips.length
  doneCount := 0
  pingArray := some (filledFrom self timeout ips 0 (freshPings raw ips.length))

/-- A body that passes every check, below the edge. -/
theorem ofJson_run {raw : RawMemory} {body entry : Value} (reads : Reads servers ips)
    (small : ips.length < 65536) (found : body.get "timeout" (.intValue 5) = .ok entry)
    (delay : entry.asInt = .ok timeout) (positive : 0 < timeout)
    (at_servers : body.member "servers" = .ok servers) (array : servers.isArray = true)
    (present : servers.isNull = false) (count : servers.size = UInt32.ofNat ips.length)
    (fuel : Nat) : (ofJson self raw fuel body).run =
      if ips.length < fuel then some (.ok (tableTask self raw timeout ips)) else none := by
  have notMore : ¬ (ips.length : Int) > MAX_PING_PER_TASK := by
    rw [MAX_PING_PER_TASK]
    omega
  have notLess : ¬ (ips.length : Int) < 0 := by omega
  rw [ofJson_past fuel found delay positive at_servers, present, array, count, size_toInt small.le,
    if_neg notMore, if_neg notLess, Int.toNat_natCast]
  change ExceptT.run (fillPings _ _ _ _ _ _ _ >>= _) = _
  rw [ExceptT.run_bind, fillPings_whole reads small]
  by_cases ends : ips.length < fuel
  · rw [if_pos ends, if_pos ends]
    rfl
  · rw [if_neg ends, if_neg ends]
    rfl

end table

/-- The entries that the loop has been through are those of the addresses. -/
def Tabulated (self : TaskPtr) (servers : Value) (timeout : Int32) (ips : List String)
    (filled : List Ping) : Prop :=
  ∀ (i : Nat) (p : Ping), filled[i]? = some p → i < ips.length →
    p.Filled self servers timeout i ∧ ips[i]? = some p.ip

/-- What becomes of a body with these addresses: the loop makes one turn for
each of them and writes nothing beyond their entries, however far the memory
goes on, and the constructor returns the task with every entry filled in. -/
structure TableFilled (address : TaskPtr) (raw : RawMemory) (body servers : Value) (timeout : Int32)
    (ips : List String) : Prop where
  turns : ∀ memory : List Ping, ips.length ≤ memory.length → ∃ filled : List Ping,
    (∀ fuel, (fillPings address servers timeout ips.length fuel 0 memory).run =
      if ips.length < fuel then some (.ok filled) else none) ∧
    filled.length = memory.length ∧ (∀ i, ips.length ≤ i → filled[i]? = memory[i]?) ∧
    Tabulated address servers timeout ips filled
  task : ∃ t : Task,
    (∀ fuel, (ofJson address raw fuel body).run =
      if ips.length < fuel then some (.ok t) else none) ∧
    t.prepareError = false ∧ t.totalCount = ips.length ∧ t.doneCount = 0 ∧
    t.pings.length = ips.length ∧ Tabulated address servers timeout ips t.pings ∧
    (t.pings.map Ping.index).Nodup

section table
variable {self : TaskPtr} {servers : Value} {timeout : Int32} {ips : List String}

theorem tabulated_filledFrom (reads : Reads servers ips) (small : ips.length ≤ 65536)
    (memory : List Ping) :
    Tabulated self servers timeout ips (filledFrom self timeout ips 0 memory) := by
  intro i p entry inside
  rw [filledFrom_getElem?] at entry
  obtain ⟨q, -, rfl⟩ := Option.map_eq_some_iff.mp entry
  rw [if_pos ⟨Nat.zero_le i, inside⟩]
  refine ⟨⟨?_, rfl, rfl, rfl, reads i inside⟩, ?_⟩
  · exact UInt16.toNat_ofNat_of_lt' (by change i < 65536; omega)
  · rw [Ping.fill, List.getD_eq_getElem?_getD, List.getElem?_eq_getElem inside]
    rfl

/-- The position is read off the index, so no two entries share one. -/
theorem Tabulated.nodup {filled : List Ping} (table : Tabulated self servers timeout ips filled)
    (length : filled.length = ips.length) : (filled.map Ping.index).Nodup := by
  apply List.Nodup.of_map UInt16.toNat
  have positions : (filled.map Ping.index).map UInt16.toNat = List.range filled.length := by
    apply List.ext_getElem
    · rw [List.length_map, List.length_map, List.length_range]
    · intro i inside _
      rw [List.length_map, List.length_map] at inside
      have entry := table i filled[i] (List.getElem?_eq_getElem inside) (length ▸ inside)
      rw [List.getElem_map, List.getElem_map, List.getElem_range]
      exact entry.1.index
  rw [positions]
  exact List.nodup_range

end table

/-- At the edge the loop has no last turn. -/
theorem not_tableFilled {self : TaskPtr} {raw : RawMemory} {body : Value} {timeout : Int32}
    {ips : List String} (full : ips.length = 65536) :
    ¬ TableFilled self raw body (.arrayValue (ips.map .stringValue)) timeout ips := by
  intro filled
  obtain ⟨_, run, -⟩ := filled.turns (freshPings raw ips.length)
    (freshPings_length raw ips.length).ge
  have ends := run (ips.length + 1)
  rw [fillPings_never (reads_strings ips) full, if_pos (Nat.lt_succ_self _)] at ends
  cases ends

section request
variable (self : TaskPtr) (raw : RawMemory) {body entry : Value} {timeout : Int32}
  {ips : List String}

/-- The ping table of an admitted request is filled, and the filling ends, exactly
when it has fewer than 65536 servers. -/
theorem ping_table_filled_iff (found : body.get "timeout" (.intValue 5) = .ok entry)
    (delay : entry.asInt = .ok timeout) (positive : 0 < timeout)
    (at_servers : body.member "servers" = .ok (.arrayValue (ips.map .stringValue)))
    (admitted : (ips.length : Int) ≤ MAX_PING_PER_TASK) :
    TableFilled self raw body (.arrayValue (ips.map .stringValue)) timeout ips ↔
      ips.length < 65536 := by
  rw [MAX_PING_PER_TASK] at admitted
  have reads := reads_strings ips
  constructor
  · intro filled
    by_contra large
    exact not_tableFilled (by omega) filled
  · intro small
    constructor
    · intro memory _
      refine ⟨_, fillPings_whole reads small memory, filledFrom_length 0 memory, ?_,
        tabulated_filledFrom reads small.le memory⟩
      intro i beyond
      have outside : ¬ (0 ≤ i ∧ i < ips.length) := by omega
      rw [filledFrom_getElem?]
      simp only [if_neg outside, Option.map_id']
    · have table : Tabulated self (.arrayValue (ips.map .stringValue)) timeout ips
          (filledFrom self timeout ips 0 (freshPings raw ips.length)) :=
        tabulated_filledFrom reads small.le _
      have length : (filledFrom self timeout ips 0 (freshPings raw ips.length)).length =
          ips.length := (filledFrom_length 0 _).trans (freshPings_length raw _)
      have count : (Value.arrayValue (ips.map .stringValue)).size = UInt32.ofNat ips.length := by
        rw [Value.size, List.length_map]
      exact ⟨tableTask self raw timeout ips,
        ofJson_run reads small found delay positive at_servers rfl rfl count,
        rfl, rfl, rfl, length, table, table.nodup length⟩

end request

open Sample

/-- Two servers. -/
theorem ping_table_filled_iff_two :
    TableFilled 7 raw (body ["192.0.2.1", "192.0.2.2"])
      (.arrayValue [.stringValue "192.0.2.1", .stringValue "192.0.2.2"]) 5
      ["192.0.2.1", "192.0.2.2"] :=
  (@ping_table_filled_iff 7 raw _ (.intValue 5) 5 ["192.0.2.1", "192.0.2.2"]
    rfl rfl (by decide) rfl (by decide)).mpr (by decide)

/-- As many servers as the check admits. -/
theorem full_table_never_filled :
    ¬ ∀ (body entry : Value) (timeout : Int32) (ips : List String),
      body.get "timeout" (.intValue 5) = .ok entry → entry.asInt = .ok timeout → 0 < timeout →
      body.member "servers" = .ok (.arrayValue (ips.map .stringValue)) →
      (ips.length : Int) ≤ MAX_PING_PER_TASK →
      TableFilled 7 raw body (.arrayValue (ips.map .stringValue)) timeout ips := by
  intro all
  have full : (List.replicate 65536 "192.0.2.1").length = 65536 := List.length_replicate
  refine not_tableFilled full (all (body (List.replicate 65536 "192.0.2.1")) (.intValue 5) 5 _
    rfl rfl (by decide) rfl ?_)
  rw [full]
  decide

end Task
end AsyncPing
