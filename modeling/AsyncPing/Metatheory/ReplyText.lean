import AsyncPing.Metatheory.Accounts
import AsyncPing.Metatheory.WriterRoundTrip
import Mathlib.Algebra.Order.Field.Basic
import Mathlib.Tactic.Linarith

/-!
The text of an answer. Every time the server replies with a document, the document can be
written, whatever the clocks showed, and a client that reads the text finds what the
server put there.
-/
namespace AsyncPing
open JsonText Reader

/-- Rounding to the nearest double: a number of 53 significant bits stays as it is, and
the order of numbers stays. -/
structure Rounds (double : Rat → Rat) : Prop where
  exact : ∀ (n : Int) (k : Nat), n.natAbs < 2 ^ 53 → k ≤ 900 → double (n * 2 ^ k) = n * 2 ^ k
  monotone : Monotone double

namespace Rounds
variable {double : Rat → Rat}

theorem exactly (rounds : Rounds double) : Exact double := by
  intro n small
  have same := rounds.exact n 0 (by omega) (Nat.zero_le _)
  rwa [pow_zero, mul_one] at same

theorem within (rounds : Rounds double) {value : Rat} (small : |value| ≤ 10 ^ 16) :
    |double value| ≤ 10 ^ 16 := by
  have top := rounds.exact (5 ^ 16) 16 (by decide) (by decide)
  have bottom := rounds.exact (-5 ^ 16) 16 (by decide) (by decide)
  norm_num at top bottom
  obtain ⟨low, high⟩ := abs_le.mp small
  have above := rounds.monotone high
  have below := rounds.monotone low
  norm_num at above below
  rw [top] at above
  rw [bottom] at below
  exact abs_le.mpr ⟨by norm_num; exact below, by norm_num; exact above⟩

end Rounds

/-! ## How long a number is -/

theorem roundDiv_le {num den bound : Nat} (positive : 0 < den) (small : num ≤ bound * den) :
    roundDiv num den ≤ bound := by
  have parts := Nat.div_add_mod num den
  have quotient : num / den ≤ bound := Nat.div_le_of_le_mul (Nat.mul_comm bound den ▸ small)
  rw [roundDiv]
  split
  · exact quotient
  · rename_i up
    have less : num / den ≠ bound := by
      intro equal
      rw [equal, Nat.mul_comm] at parts
      have rest : num % den = 0 := by omega
      exact up (.inl (by omega))
    omega

theorem scaled_le {value : Rat} {bound : Nat} (small : |value| ≤ bound) :
    scaled value ≤ bound * 10 ^ 10 := by
  have size : (value.num.natAbs : Rat) ≤ bound * value.den := by
    have positive : (0 : Rat) < value.den := Nat.cast_pos.mpr value.den_pos
    rw [← Rat.num_div_den value, abs_div, Nat.abs_cast, div_le_iff₀ positive] at small
    rwa [Nat.cast_natAbs, Int.cast_abs]
  have cast : value.num.natAbs ≤ bound * value.den := by exact_mod_cast size
  refine roundDiv_le value.den_pos ?_
  calc value.num.natAbs * 10 ^ 10 ≤ bound * value.den * 10 ^ 10 := Nat.mul_le_mul_right _ cast
    _ = bound * 10 ^ 10 * value.den := Nat.mul_right_comm ..

/-- Seventeen digits before the point are few enough. -/
theorem fixedPoint_short {value : Rat} (small : |value| ≤ 10 ^ 16) :
    (fixedPoint value).length < 31 := by
  have bound : |value| ≤ ((10 ^ 16 : Nat) : Rat) := by
    rw [Nat.cast_pow]
    exact small
  have units := scaled_le bound
  have whole : scaled value / 10 ^ 10 < 10 ^ 17 := by omega
  have digits : (Nat.toDigits 10 (scaled value / 10 ^ 10)).length ≤ 17 :=
    (Nat.length_toDigits_le_iff (by decide) (by decide)).mpr whole
  have sign : (if value < 0 then ['-'] else []).length ≤ 1 := by split <;> decide
  rw [fixedPoint_eq, List.length_append, List.length_append, List.length_cons, decimals_length]
  omega

theorem cost_small (p : Ping) : |p.cost| ≤ 10 ^ 16 := by
  have low := (p.recvtime - p.sendtime).le_toInt
  have high := (p.recvtime - p.sendtime).toInt_lt
  rw [Ping.cost, abs_le]
  generalize (p.recvtime - p.sendtime).toInt = elapsed at low high
  have lower : ((-10 ^ 19 : Int) : Rat) ≤ elapsed := Int.cast_le.mpr (by omega)
  have upper : (elapsed : Rat) ≤ ((10 ^ 19 : Int) : Rat) := Int.cast_le.mpr (by omega)
  push_cast at lower upper
  constructor <;> linarith

/-! ## What is answered -/

/-- All of it can be written, and has a numeral. -/
structure Sendable (double : Rat → Rat) (body : Value) : Prop where
  printable : Printable double body
  isFinite : body.Finite double
  counted : Counted body

section bodies
variable {double : Rat → Rat}

theorem sendable_string {string : String} (noNul : '\x00' ∉ string.toList) :
    Sendable double (.stringValue string) :=
  ⟨.stringValue string noNul, .stringValue string noNul, .scalar _ nofun nofun⟩

theorem sendable_bool (bool : Bool) : Sendable double (.booleanValue bool) :=
  ⟨.booleanValue bool, .booleanValue bool, .scalar _ nofun nofun⟩

theorem sendable_real {value : Rat} (small : |double value| ≤ 10 ^ 16) :
    Sendable double (.realValue (.finite value)) := by
  have below : |double value| < Double.bound := calc
    |double value| ≤ 10 ^ 16 := small
    _ < 2 ^ 80 := by norm_num
    _ ≤ Double.bound := Double.pow_le_bound (by decide)
  have rounded := Double.rounded_of_small below
  refine ⟨.realValue _ fun real same => ?_, .realValue _ fun real same => ?_,
    .scalar _ nofun nofun⟩
  · cases same
    rcases rounded with rounded | rounded <;> rw [rounded]
    · have short := fixedPoint_short small
      rw [sprintf]
      omega
    · have zero : |(0 : Rat)| ≤ 10 ^ 16 := abs_zero.trans_le (by norm_num)
      have short := fixedPoint_short zero
      rw [sprintf, List.length_cons]
      omega
  · cases same
    rcases rounded with rounded | rounded <;> rw [rounded]
    · exact .finite _
    · exact .negativeZero

theorem sendable_array {elements : List Value} (few : elements.length < 2 ^ 32)
    (each : ∀ v ∈ elements, Sendable double v) : Sendable double (.arrayValue elements) :=
  ⟨.arrayValue elements fun v member => (each v member).printable,
    .arrayValue elements fun v member => (each v member).isFinite,
    .arrayValue elements few fun v member => (each v member).counted⟩

theorem sendable_object {members : List (String × Value)} (sorted : Value.Sorted members)
    (names : ∀ m ∈ members, '\x00' ∉ m.1.toList) (few : members.length < 2 ^ 32)
    (each : ∀ m ∈ members, Sendable double m.2) : Sendable double (.objectValue members) :=
  ⟨.objectValue members sorted names fun m member => (each m member).printable,
    .objectValue members sorted names fun m member => (each m member).isFinite,
    .objectValue members few fun m member => (each m member).counted⟩

theorem result_sendable (rounds : Rounds double) {p : Ping} (noNul : '\x00' ∉ p.ip.toList) :
    Sendable double (Task.result p) := by
  have cost := rounds.within (cost_small p)
  have zero := rounds.within (abs_zero.trans_le (by norm_num))
  have one := rounds.within (abs_one.trans_le (by norm_num))
  rw [Task.result]
  split
  · refine sendable_object (by simp [Value.Sorted, Value.precedes]) (by simp) (by simp) ?_
    simp only [List.mem_cons, List.not_mem_nil, or_false, forall_eq_or_imp, forall_eq]
    exact ⟨sendable_real cost, sendable_string noNul, sendable_real zero⟩
  · refine sendable_object (by simp [Value.Sorted, Value.precedes]) (by simp) (by simp) ?_
    simp only [List.mem_cons, List.not_mem_nil, or_false, forall_eq_or_imp, forall_eq]
    exact ⟨sendable_string noNul, sendable_real one⟩

theorem response_sendable {results : List Value} (few : results.length < 2 ^ 32)
    (each : ∀ v ∈ results, Sendable double v) : Sendable double (Task.response results) := by
  have empty : Sendable double (.stringValue "") := sendable_string (by simp)
  cases results with
  | nil =>
      refine sendable_object (by simp [Value.Sorted, Value.precedes]) (by simp) (by simp) ?_
      simp only [List.mem_cons, List.not_mem_nil, or_false, forall_eq_or_imp, forall_eq]
      exact ⟨empty, sendable_bool true⟩
  | cons v results =>
      refine sendable_object (by simp [Value.Sorted, Value.precedes]) (by simp) (by simp) ?_
      simp only [List.mem_cons, List.not_mem_nil, or_false, forall_eq_or_imp, forall_eq]
      exact ⟨empty, sendable_array few (by simpa using each), sendable_bool true⟩

/-- The body of a response with an error. -/
def Task.refusal (code : Int) : Value :=
  .objectValue [("errMsg", .stringValue (Task.errorMsg code)), ("success", .booleanValue false)]

theorem buildResponse_refusal (self : TaskPtr) {t : Task} (bad : t.prepareError = true) :
    t.buildResponse self = .ok (Task.refusal t.preErrorCode) := by
  rw [Task.buildResponse, if_pos bad, Task.refusal]
  simp [Value.modifyMember, Value.updateMembers, Value.precedes]

theorem refusal_sendable (code : Int) : Sendable double (Task.refusal code) := by
  have message : '\x00' ∉ (Task.errorMsg code).toList := by
    unfold Task.errorMsg
    split <;> decide
  refine sendable_object (by simp [Value.Sorted, Value.precedes]) (by simp) (by simp) ?_
  simp only [List.mem_cons, List.not_mem_nil, or_false, forall_eq_or_imp, forall_eq]
  exact ⟨sendable_string message, sendable_bool false⟩

/-- The text of a body that can be written is read back. -/
theorem Sendable.readable {body : Value} (sendable : Sendable double body)
    (rounding : Exact double) :
    ∃ text, StyledStreamWriter.write double uncommented body = .ok text ∧
      ∀ root collectComments, ∃ v,
        Reader.parse double text root collectComments = .ok (true, v, []) ∧
        v.json = body.json.mapNumbers fun real => .read double (real.rounded double).printed := by
  have tab : Blank ['\t'] := fun c member => by rw [List.mem_singleton.mp member]; rfl
  have written : WrittenBy double uncommented body
    (StyledStreamWriter.write double uncommented body) := .styled true ['\t'] tab
  obtain ⟨document, wrote⟩ := written.succeeds rounding sendable.printable sendable.counted
  have lasts : Lasts True double _ body (StyledStreamWriter.write double uncommented body) :=
    written.lasts rounding (fun _ real inside => inside real rfl) (fun _ => rfl)
      sendable.isFinite sendable.counted
  rw [wrote] at lasts
  exact ⟨document, wrote, lasts.reads rounding sendable.isFinite⟩

end bodies

/-! ## The servers of a Task -/

/-- These names can stand in an answer. -/
structure Nameable (ips : List String) : Prop where
  few : ips.length < 2 ^ 31
  noNul : ∀ ip ∈ ips, '\x00' ∉ ip.toList

abbrev Task.ips (t : Task) : List String := t.pings.map Ping.ip

theorem nameable_nil : Nameable [] := ⟨by decide, nofun⟩

theorem asString_noNul {v : Value} {ip : String} (writable : Writable v)
    (text : v.asString = .ok ip) : '\x00' ∉ ip.toList := by
  cases writable with
  | nullValue =>
      cases text
      simp
  | stringValue string noNul =>
      cases text
      exact noNul
  | booleanValue bool =>
      cases text
      cases bool <;> simp
  | intValue | uintValue | realValue | arrayValue | objectValue => cases text

theorem element_writable {v u : Value} {i : Nat} (writable : Writable v)
    (element : v.element i = .ok u) : Writable u := by
  cases writable with
  | nullValue =>
      cases element
      exact .nullValue
  | arrayValue elements each =>
      cases element
      cases inside : elements[i]? with
      | none => exact .nullValue
      | some w => exact each w (List.mem_of_getElem? inside)
  | intValue | uintValue | realValue | stringValue | booleanValue | objectValue => cases element

theorem member_writable {v u : Value} {key : String} (writable : Writable v)
    (member : v.member key = .ok u) : Writable u := by
  cases v with
  | nullValue =>
      cases member
      exact .nullValue
  | objectValue members =>
      cases member
      exact writable.member
  | intValue | uintValue | realValue | stringValue | booleanValue | arrayValue => cases member

theorem accepted_nameable {self : TaskPtr} {raw : RawMemory} {fuel : Nat} {body : Value} {t : Task}
    (writable : Writable body) (run : Task.accepted self raw fuel body = some t) :
    Nameable t.ips := by
  obtain ⟨_, _, total, timeout, servers, _, found, count, all⟩ := Task.accepted_filled run
  have readable := member_writable writable found
  have high := servers.size.toInt32.toInt_lt
  refine ⟨?_, fun ip member => ?_⟩
  · rw [List.length_map]
    omega
  · obtain ⟨p, isPing, rfl⟩ := List.mem_map.mp member
    obtain ⟨i, entry⟩ := List.mem_iff_getElem?.mp isPing
    obtain ⟨server, element, text⟩ := (all i p entry).ip
    exact asString_noNul (element_writable readable element) text

/-- A Task that was rejected at once has no pings. -/
theorem rejected_pings {self : TaskPtr} {raw : RawMemory} {fuel : Nat} {body : Value} {t : Task}
    (returned : Returns (Task.ofJson self raw fuel body) t) (bad : t.prepareError = true) :
    t.pings = [] := by
  simp only [Task.ofJson] at returned
  split at returned
  · cases returned
    rfl
  obtain ⟨entry, _, returned⟩ := returned.of_lift
  obtain ⟨timeout, _, returned⟩ := returned.of_lift
  split at returned
  · cases returned
    rfl
  obtain ⟨servers, _, returned⟩ := returned.of_lift
  split at returned
  · cases returned
    rfl
  split at returned
  · cases returned
    rfl
  split at returned
  · cases returned
  obtain ⟨filled, _, returned⟩ := returned.of_bind
  cases returned
  cases bad

theorem constructed_nameable {parse : List UInt8 → Option Value} {req : EvhttpRequest}
    {site : Allocation} {t : Task} (delivers : ∀ buf v, parse buf = some v → Writable v)
    (built : HttpHandler.constructed parse req site = some t) : Nameable t.ips := by
  have run := constructed_run built
  rw [HttpHandler.construct] at run
  split at run
  · cases run
    exact nameable_nil
  · cases parsed : parse (HttpHandler.recvReqInput req) with
    | none =>
        rw [parsed] at run
        cases run
        exact nameable_nil
    | some body =>
        rw [parsed] at run
        have returned : Returns (Task.ofJson site.task site.raw site.fuel body) t := run
        cases bad : t.prepareError with
        | true =>
            rw [Task.ips, rejected_pings returned bad]
            exact nameable_nil
        | false =>
            have returned' : (Task.ofJson site.task site.raw site.fuel body :
              Option (Except Thrown Task)) = some (.ok t) := run
            refine accepted_nameable (delivers _ body parsed) (?_ :
              Task.accepted site.task site.raw site.fuel body = some t)
            rw [Task.accepted, returned']
            simp only [bad, Bool.false_eq_true, if_false]

/-! ## Along a run -/

/-- Every live Task names its servers, and every document sent so far can be written. -/
structure Server.Speaks {W : Nat} (double : Rat → Rat) (s : Server W) : Prop where
  named : ∀ a t, s.heap a = some t → Nameable t.ips
  replies : ∀ req task code reason docs,
    .replied req task (.sendReply code reason docs) ∈ s.history →
      ∀ body ∈ docs, Sendable double body

namespace Server.Speaks
variable {W : Nat} {double : Rat → Rat} {parse : List UInt8 → Option Value} {s s' : Server W}

theorem of_boots (boots : s.Boots) : s.Speaks double := by
  obtain ⟨heap, -, -, -, -, history⟩ := boots
  refine ⟨fun a t live => ?_, fun req task code reason docs member => ?_⟩
  · rw [heap a] at live
    cases live
  · rw [history] at member
    cases member

theorem filled_sendable (rounds : Rounds double) {t : Task} {task : TaskPtr} {req : RequestPtr}
    {response : HttpResponse} (names : Nameable t.ips) (answerable : t.Answerable)
    (filled : t.fillHttpResponse task (.ofRequest req) = .ok response) :
    ∀ body ∈ response.evb, Sendable double body := by
  rw [Task.fillHttpResponse] at filled
  split at filled
  · cases filled
    exact fun _ member => absurd member List.not_mem_nil
  · have built : ∃ body, t.buildResponse task = .ok body ∧ Sendable double body := by
      cases bad : t.prepareError with
      | true => exact ⟨_, buildResponse_refusal task bad, refusal_sendable _⟩
      | false =>
          have total := answerable.resolve_left (by rw [bad]; exact Bool.false_ne_true)
          refine ⟨_, t.buildResponse_eq task total bad, response_sendable ?_ ?_⟩
          · have few := names.few
            rw [List.length_map] at few ⊢
            omega
          · intro v member
            obtain ⟨p, isPing, rfl⟩ := List.mem_map.mp member
            exact result_sendable rounds (names.noNul p.ip (List.mem_map_of_mem isPing))
    obtain ⟨content, built, sendable⟩ := built
    rw [built] at filled
    cases filled
    intro body member
    rw [List.mem_singleton.mp member]
    exact sendable

theorem doResponse_evb {response : HttpResponse} {code : Int} {reason : String}
    {docs : List Value} (sent : response.doResponse = .sendReply code reason docs) :
    docs = response.evb := by
  rw [HttpResponse.doResponse] at sent
  split at sent
  · cases sent
    rfl
  · split at sent
    · cases sent
    · split at sent <;> cases sent

/-- A new Task with names that can be written. -/
theorem receive (speaks : s.Speaks double) {task : TaskPtr} {t : Task} (names : Nameable t.ips)
    (heap : s'.heap = Function.update s.heap task (some t))
    (history : ∀ req a reply,
      .replied req a reply ∈ s'.history → .replied req a reply ∈ s.history) :
    s'.Speaks double := by
  refine ⟨fun a u live => ?_, fun req a code reason docs member => ?_⟩
  · rw [heap] at live
    by_cases same : a = task
    · rw [same, Function.update_self] at live
      cases live
      exact names
    · rw [Function.update_of_ne same] at live
      exact speaks.named a u live
  · exact speaks.replies req a code reason docs (history _ _ _ member)

theorem move (speaks : s.Speaks double) (rounds : Rounds double) (workers : 0 < W)
    (delivers : ∀ buf v, parse buf = some v → Writable v) (inv : ServerInv s) {l : ServerMove W}
    (offered : l.enabled parse s) (served : l.serve parse s = .ok s') : s'.Speaks double := by
  have received : ∀ req task, ∀ r a reply, ServerEvent.replied r a reply ∈
      .received req task :: s.history → .replied r a reply ∈ s.history := by
    intro req task r a reply member
    cases List.mem_cons.mp member with
    | inl same => cases same
    | inr earlier => exact earlier
  cases l with
  | request req site rand =>
      cases inv.moved workers offered served with
      | rejected _ _ _ t free fresh built bad =>
          exact speaks.receive (constructed_nameable delivers built) rfl (received _ _)
      | passedOn _ _ _ t i free fresh built ready =>
          exact speaks.receive (constructed_nameable delivers built) rfl (received _ _)
  | worker i move =>
      obtain ⟨w', run, rfl⟩ := resume_of_serve served
      refine ⟨fun a t live => ?_, speaks.replies⟩
      have same := congrFun (congrArg Prod.fst (WorkerMove.serve_account offered.1 run)) a
      change (w'.heap a).map Task.ips = (s.heap a).map Task.ips at same
      change w'.heap a = some t at live
      rw [live] at same
      obtain ⟨t', live', ips⟩ := Option.map_eq_some_iff.mp same.symm
      exact ips ▸ speaks.named a t' live'
  | respond =>
      cases inv.moved workers offered served with
      | answered task req rest t response popped request live filled =>
          have member : task ∈ s.master.responseQueue := by
            simp [Sequence.popTail_eq_some.mp popped]
          obtain ⟨t', live', answerable⟩ := inv.answerable task member
          rw [live, Option.some.injEq] at live'
          subst live'
          have sendable := filled_sendable rounds (speaks.named task t live) answerable filled
          refine ⟨fun a u live => ?_, fun r a code reason docs sent => ?_⟩
          · change Function.update s.heap task none a = some u at live
            by_cases same : a = task
            · rw [same, Function.update_self] at live
              cases live
            · rw [Function.update_of_ne same] at live
              exact speaks.named a u live
          · change _ ∈ .deleted task :: .replied req task response.doResponse :: s.history at sent
            cases List.mem_cons.mp sent with
            | inl deleted => cases deleted
            | inr sent =>
                cases List.mem_cons.mp sent with
                | inl this =>
                    rw [doResponse_evb (ServerEvent.replied.inj this).2.2.symm]
                    exact sendable
                | inr earlier => exact speaks.replies r a code reason docs earlier

theorem of_reachable (rounds : Rounds double) (workers : 0 < W)
    (delivers : ∀ buf v, parse buf = some v → Writable v)
    {allowed : Server W → ServerMove W → Prop}
    (reached : (serverSystem parse W).Reachable allowed s) : s.Speaks double := by
  have both : ServerInv s ∧ s.Speaks double := by
    refine reached.invariant (I := fun s => ServerInv s ∧ s.Speaks double)
      (fun s₀ boots => ⟨.of_boots boots, .of_boots boots⟩) ?_
    rintro s l s' ⟨inv, speaks⟩ offered _ served
    exact ⟨inv.of_moved (inv.moved workers offered served),
      speaks.move rounds workers delivers inv offered served⟩
  exact both.2

end Server.Speaks

theorem parse_writable (double : Rat → Rat) (buf : List UInt8) (v : Value)
    (parsed : JsonValue.parse double buf = some v) : Writable v := by
  have shaped := parse_parsed double (buf.map Char.ofUInt8) true .nullValue
  rw [JsonValue.parse] at parsed
  split at parsed
  · rename_i jvalue errors run
    rw [Option.some.injEq] at parsed
    rw [run] at shaped
    exact parsed ▸ shaped.1.mono fun _ _ => trivial
  · cases parsed

end AsyncPing
