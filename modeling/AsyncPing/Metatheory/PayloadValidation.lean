import AsyncPing.Metatheory.PingTable

/-!
The checks of the constructor against the classification they stand for. A
timeout or a server that does not convert, the null body and a count that an
int does not hold are where the two part.
-/
namespace AsyncPing

/-- Rejected with this code, or accepted. -/
abbrev Outcome := Option Int

namespace Task

def outcome (t : Task) : Outcome := if t.prepareError then some t.preErrorCode else none

/-- The timeout of a request, read as an int. -/
def requestTimeout (body : Value) : Except Thrown Int32 := do
  let entry ← body.get "timeout" (.intValue 5)
  entry.asInt

/-- What the codes stand for: the first check that fails decides. Several codes
are allowed where no code of its own is. -/
def outcomes (body : Value) : List Outcome :=
  if body.isNull || !body.isObject then [some 1001]
  else
    match requestTimeout body with
    | .error _ => [some 1002]
    | .ok timeout =>
        if timeout ≤ 0 then [some 1002]
        else
          match body.member "servers" with
          | .ok (.arrayValue elements) =>
              if MAX_PING_PER_TASK < elements.length then [some 1004]
              else if elements.all (·.asString.isOk) then [none]
              else [some 1001, some 1002, some 1003, some 1004]
          | _ => [some 1003]

/-- The constructor returns, with an outcome that the body allows; a rejected
task is empty. -/
structure Validated (address : TaskPtr) (raw : RawMemory) (body : Value) : Prop where
  returns : ∃ (enough : Nat) (t : Task),
    (∀ fuel, enough ≤ fuel → Returns (ofJson address raw fuel body) t) ∧
    t.outcome ∈ outcomes body ∧
    (t.prepareError = true → t.pingArray = none ∧ t.totalCount = 0)

/-- The body is not null, its timeout is convertible, and behind a positive
timeout every server is convertible and counted right. -/
structure Harmless (body : Value) : Prop where
  present : body.isNull = false
  timeout : body.isObject = true → ∃ timeout, requestTimeout body = .ok timeout
  servers : ∀ timeout elements, requestTimeout body = .ok timeout → 0 < timeout →
    body.member "servers" = .ok (.arrayValue elements) →
      (elements.length < 65536 ∧ elements.all (·.asString.isOk) = true) ∨
      (65536 < elements.length ∧
        MAX_PING_PER_TASK < (Value.arrayValue elements).size.toInt32.toInt)

section validation
variable {address : TaskPtr} {raw : RawMemory} {body : Value} {timeout : Int32}

theorem requestTimeout_eq (converts : requestTimeout body = .ok timeout) :
    ∃ entry, body.get "timeout" (.intValue 5) = .ok entry ∧ entry.asInt = .ok timeout := by
  rw [requestTimeout] at converts
  cases found : body.get "timeout" (.intValue 5) with
  | error thrown =>
      rw [found] at converts
      cases converts
  | ok entry =>
      rw [found] at converts
      exact ⟨entry, rfl, converts⟩

/-- A constructor that returns has read the timeout. -/
theorem requestTimeout_of_returns {fuel : Nat} {t : Task} (object : body.isObject = true)
    (run : Returns (ofJson address raw fuel body) t) :
    ∃ timeout, requestTimeout body = .ok timeout := by
  simp only [ofJson, object] at run
  obtain ⟨entry, found, run⟩ := run.of_lift
  obtain ⟨timeout, delay, -⟩ := run.of_lift
  refine ⟨timeout, ?_⟩
  rw [requestTimeout, found]
  exact delay

theorem validated_of_rejected (code : Int) (run : ∀ fuel, ofJson address raw fuel body =
    pure (ofErrorCode raw code)) (allowed : some code ∈ outcomes body) :
    Validated address raw body :=
  ⟨0, ofErrorCode raw code, fun fuel _ => congrArg ExceptT.run (run fuel), allowed,
    fun _ => ⟨rfl, rfl⟩⟩

/-- Where the constructor rejects, the code must be an allowed one. -/
theorem Validated.allowed (code : Int) (valid : Validated address raw body)
    (run : ∀ fuel, ofJson address raw fuel body = pure (ofErrorCode raw code)) :
    some code ∈ outcomes body := by
  obtain ⟨enough, t, returns, allowed, -⟩ := valid.returns
  have same := returns enough (Nat.le_refl _)
  rw [run] at same
  cases same
  exact allowed

/-! ## Behind a readable timeout -/

theorem ofJson_early (object : body.isObject = true) (converts : requestTimeout body = .ok timeout)
    (early : timeout ≤ 0) (fuel : Nat) :
    ofJson address raw fuel body = pure (ofErrorCode raw 1002) := by
  obtain ⟨entry, found, delay⟩ := requestTimeout_eq converts
  simp only [ofJson, object, found, lift_ok, delay, early]
  rfl

theorem outcomes_early (object : body.isObject = true) (present : body.isNull = false)
    (converts : requestTimeout body = .ok timeout) (early : timeout ≤ 0) :
    outcomes body = [some 1002] := by
  simp [outcomes, object, present, converts, early]

theorem outcomes_array {elements : List Value} (present : body.isNull = false)
    (converts : requestTimeout body = .ok timeout) (positive : 0 < timeout)
    (at_servers : body.member "servers" = .ok (.arrayValue elements)) :
    outcomes body =
      if MAX_PING_PER_TASK < elements.length then [some 1004]
      else if elements.all (·.asString.isOk) then [none]
      else [some 1001, some 1002, some 1003, some 1004] := by
  have object := Value.isObject_of_member at_servers
  have early : ¬ timeout ≤ 0 := Int32.not_le.mpr positive
  simp [outcomes, object, present, converts, early, at_servers]

theorem outcomes_noArray {servers : Value} (present : body.isNull = false)
    (converts : requestTimeout body = .ok timeout) (positive : 0 < timeout)
    (at_servers : body.member "servers" = .ok servers)
    (noArray : ∀ elements, servers ≠ .arrayValue elements) : outcomes body = [some 1003] := by
  have object := Value.isObject_of_member at_servers
  have early : ¬ timeout ≤ 0 := Int32.not_le.mpr positive
  cases servers with
  | arrayValue elements => exact absurd rfl (noArray elements)
  | _ => simp [outcomes, object, present, converts, early, at_servers]

theorem ofJson_noArray {servers : Value} (converts : requestTimeout body = .ok timeout)
    (positive : 0 < timeout) (at_servers : body.member "servers" = .ok servers)
    (noArray : ∀ elements, servers ≠ .arrayValue elements) (fuel : Nat) :
    ofJson address raw fuel body = pure (ofErrorCode raw 1003) := by
  obtain ⟨entry, found, delay⟩ := requestTimeout_eq converts
  rw [ofJson_past fuel found delay positive at_servers]
  cases servers with
  | arrayValue elements => exact absurd rfl (noArray elements)
  | _ => rfl

theorem ofJson_overflow {elements : List Value} (converts : requestTimeout body = .ok timeout)
    (positive : 0 < timeout) (at_servers : body.member "servers" = .ok (.arrayValue elements))
    (large : MAX_PING_PER_TASK < (Value.arrayValue elements).size.toInt32.toInt) (fuel : Nat) :
    ofJson address raw fuel body = pure (ofErrorCode raw 1004) := by
  obtain ⟨entry, found, delay⟩ := requestTimeout_eq converts
  rw [ofJson_past fuel found delay positive at_servers]
  change (if _ > _ then _ else _) = _
  rw [if_pos large]

/-- The addresses of servers that are all convertible. -/
theorem reads_elements {elements : List Value}
    (convertible : elements.all (·.asString.isOk) = true) :
    ∃ ips : List String, ips.length = elements.length ∧ Reads (.arrayValue elements) ips := by
  refine ⟨elements.map fun e => e.asString.toOption.getD "", List.length_map _, ?_⟩
  intro i inside
  rw [List.length_map] at inside
  refine ⟨elements[i], ?_, ?_⟩
  · rw [Value.element, List.getElem?_eq_getElem inside]
    rfl
  · have ok := List.all_eq_true.mp convertible elements[i] (List.getElem_mem inside)
    rw [List.getD_eq_getElem?_getD, List.getElem?_map, List.getElem?_eq_getElem inside]
    cases text : elements[i].asString with
    | error thrown =>
        rw [text] at ok
        cases ok
    | ok ip =>
        rw [Option.map_some, Option.getD_some, text]
        rfl

/-- The constructor with a number of servers it admits returns no other way
than through the end of the loop. -/
theorem fills_of_returns {elements : List Value} {fuel : Nat} {t : Task}
    (converts : requestTimeout body = .ok timeout) (positive : 0 < timeout)
    (at_servers : body.member "servers" = .ok (.arrayValue elements))
    (admitted : ¬ MAX_PING_PER_TASK < (Value.arrayValue elements).size.toInt32.toInt)
    (run : Returns (ofJson address raw fuel body) t) :
    t.outcome = none ∧ 0 ≤ (Value.arrayValue elements).size.toInt32.toInt ∧
      ∃ filled, Returns (fillPings address (.arrayValue elements) timeout
        (Value.arrayValue elements).size.toInt32.toInt fuel 0
        (freshPings raw (Value.arrayValue elements).size.toInt32.toInt.toNat)) filled := by
  obtain ⟨entry, found, delay⟩ := requestTimeout_eq converts
  rw [ofJson_past fuel found delay positive at_servers] at run
  change Returns (if _ > _ then _ else _) t at run
  rw [if_neg admitted] at run
  by_cases negative : (Value.arrayValue elements).size.toInt32.toInt < 0
  · rw [if_pos negative] at run
    cases run
  · rw [if_neg negative] at run
    obtain ⟨filled, loop, run⟩ := run.of_bind
    cases run
    exact ⟨rfl, Int.not_lt.mp negative, filled, loop⟩

/-- A loop that ends has read every server as a string. -/
theorem convertible_of_fills {elements : List Value} {fuel : Nat} {filled : List Ping}
    (run : Returns (fillPings address (.arrayValue elements) timeout elements.length fuel 0
      (freshPings raw elements.length)) filled) : elements.all (·.asString.isOk) = true := by
  have fresh := freshPings_length raw elements.length
  obtain ⟨length, all⟩ := fillPings_filled fuel 0 _ filled (by rw [fresh]) (by simp) run
  rw [fresh] at length
  apply List.all_eq_true.mpr
  intro e member
  obtain ⟨i, inside, rfl⟩ := List.getElem_of_mem member
  have entry := List.getElem?_eq_getElem (length.symm ▸ inside : i < filled.length)
  obtain ⟨server, at_i, text⟩ := (all i _ entry).ip
  rw [Value.element, List.getElem?_eq_getElem inside] at at_i
  cases at_i
  rw [Option.getD_some] at text
  rw [text]
  rfl

/-! ## Both directions -/

theorem Validated.of_array {elements : List Value} (present : body.isNull = false)
    (converts : requestTimeout body = .ok timeout) (positive : 0 < timeout)
    (at_servers : body.member "servers" = .ok (.arrayValue elements))
    (counted : (elements.length < 65536 ∧ elements.all (·.asString.isOk) = true) ∨
      (65536 < elements.length ∧
        MAX_PING_PER_TASK < (Value.arrayValue elements).size.toInt32.toInt)) :
    Validated address raw body := by
  have out := outcomes_array present converts positive at_servers
  cases counted with
  | inl both =>
      obtain ⟨small, convertible⟩ := both
      obtain ⟨entry, found, delay⟩ := requestTimeout_eq converts
      obtain ⟨ips, length, reads⟩ := reads_elements convertible
      have admitted : ¬ MAX_PING_PER_TASK < elements.length := by
        rw [MAX_PING_PER_TASK]
        omega
      rw [if_neg admitted, if_pos convertible] at out
      have count : (Value.arrayValue elements).size = UInt32.ofNat ips.length :=
        congrArg UInt32.ofNat length.symm
      refine ⟨ips.length + 1, tableTask address raw timeout ips, fun fuel enough => ?_, ?_, ?_⟩
      · have fits : ips.length < 65536 := length ▸ small
        rw [Returns, ofJson_run reads fits found delay positive at_servers rfl rfl count,
          if_pos (Nat.lt_of_succ_le enough)]
      · rw [out]
        exact List.mem_singleton.mpr rfl
      · intro rejected
        cases rejected
  | inr both =>
      obtain ⟨large, overflow⟩ := both
      apply validated_of_rejected 1004 (ofJson_overflow converts positive at_servers overflow)
      have admitted : MAX_PING_PER_TASK < elements.length := by
        rw [MAX_PING_PER_TASK]
        omega
      rw [out, if_pos admitted]
      exact List.mem_singleton.mpr rfl

/-- What the checks do not mishandle is classified as it should be. -/
theorem Harmless.validated (harmless : Harmless body) : Validated address raw body := by
  have present := harmless.present
  by_cases object : body.isObject = true
  · obtain ⟨timeout, converts⟩ := harmless.timeout object
    by_cases positive : 0 < timeout
    · obtain ⟨servers, at_servers⟩ := Value.member_of_isObject "servers" object
      by_cases array : ∃ elements, servers = .arrayValue elements
      · obtain ⟨elements, rfl⟩ := array
        exact .of_array present converts positive at_servers
          (harmless.servers timeout elements converts positive at_servers)
      · have noArray := fun elements same => array ⟨elements, same⟩
        apply validated_of_rejected 1003 (ofJson_noArray converts positive at_servers noArray)
        rw [outcomes_noArray present converts positive at_servers noArray]
        exact List.mem_singleton.mpr rfl
    · have early := Int32.not_lt.mp positive
      apply validated_of_rejected 1002 (ofJson_early object converts early)
      rw [outcomes_early object present converts early]
      exact List.mem_singleton.mpr rfl
  · apply validated_of_rejected 1001
    · intro fuel
      simp [ofJson, object]
      rfl
    · simp [outcomes, object]

/-- A body that is classified as it should be meets no check that mishandles it. -/
theorem Validated.harmless (valid : Validated address raw body)
    (edge : ∀ elements, body.member "servers" = .ok (.arrayValue elements) →
      elements.length ≠ 65536) : Harmless body := by
  have present : body.isNull = false := by
    cases body with
    | nullValue =>
        have allowed := valid.allowed 1003 fun _ => rfl
        exact absurd allowed (by decide)
    | _ => rfl
  obtain ⟨enough, t, returns, allowed, -⟩ := valid.returns
  have run := returns enough (Nat.le_refl _)
  refine ⟨present, fun object => requestTimeout_of_returns object run, ?_⟩
  intro timeout elements converts positive at_servers
  have out := outcomes_array present converts positive at_servers
  by_cases overflow : MAX_PING_PER_TASK < (Value.arrayValue elements).size.toInt32.toInt
  · right
    refine ⟨?_, overflow⟩
    by_contra small
    rw [Value.size, size_toInt (Nat.not_lt.mp small), MAX_PING_PER_TASK] at overflow
    omega
  · left
    obtain ⟨accepted, -, filled, loop⟩ :=
      fills_of_returns converts positive at_servers overflow run
    rw [accepted, out] at allowed
    by_cases large : MAX_PING_PER_TASK < elements.length
    · rw [if_pos large] at allowed
      exact absurd allowed (by decide)
    · rw [MAX_PING_PER_TASK] at large
      have small : elements.length < 65536 := by
        have apart := edge elements at_servers
        omega
      rw [Value.size, size_toInt small.le] at loop
      exact ⟨small, convertible_of_fills loop⟩

end validation

/-- Off the edge of 65536 servers, a body is classified by its first failing
check, and no exception escapes, exactly when it is harmless. -/
theorem payload_validated_iff (address : TaskPtr) (raw : RawMemory) (body : Value)
    (edge : ∀ elements, body.member "servers" = .ok (.arrayValue elements) →
      elements.length ≠ 65536) : Validated address raw body ↔ Harmless body := by
  constructor
  · intro valid
    exact valid.harmless edge
  · exact Harmless.validated

open Sample

/-- Two servers, and the default timeout. -/
theorem payload_validated_iff_two : Validated 7 raw (body ["192.0.2.1", "192.0.2.2"]) := by
  refine (payload_validated_iff 7 raw (body ["192.0.2.1", "192.0.2.2"]) ?_).mpr ⟨rfl, ?_, ?_⟩
  · intro elements at_servers
    cases at_servers
    decide
  · exact fun _ => ⟨5, rfl⟩
  · intro timeout elements _ _ at_servers
    cases at_servers
    exact .inl (by decide)

/-- A timeout that is a string: the exception of `asInt` leaves the constructor. -/
theorem text_timeout_escapes :
    (∀ fuel, (ofJson 7 raw fuel (.objectValue [("timeout", .stringValue "5")])).run =
      some (.error (.runtimeError "Type is not convertible to int"))) ∧
    ¬ ∀ body : Value, (∀ elements, body.member "servers" = .ok (.arrayValue elements) →
      elements.length ≠ 65536) → Validated 7 raw body := by
  refine ⟨fun _ => rfl, fun all => ?_⟩
  have edge : ∀ elements, (Value.objectValue [("timeout", .stringValue "5")]).member "servers" =
      .ok (.arrayValue elements) → elements.length ≠ 65536 := by
    intro elements at_servers
    cases at_servers
  obtain ⟨timeout, converts⟩ := ((all _ edge).harmless edge).timeout rfl
  cases converts

end Task
end AsyncPing
