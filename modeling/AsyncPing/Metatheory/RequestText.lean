import AsyncPing.Metatheory.AnswerTruth
import AsyncPing.Metatheory.PingTable
import AsyncPing.Metatheory.RequestBody
import Mathlib.Data.Rat.Floor

/-!
From the bytes of a request to its Task. However the body is laid out, what counts is the
last "servers" and the last "timeout" of the object it holds.
-/
namespace AsyncPing
open JsonText Reader FastWriter

section text
variable {double : Rat → Rat}

/-! ## Reading the members -/

theorem strings_of_json {elements : List Value} {ips : List String}
    (json : Value.jsonElements elements = ips.map fun ip => .string ip.toList) :
    elements = ips.map .stringValue := by
  induction elements generalizing ips with
  | nil =>
      cases ips with
      | nil => rfl
      | cons => cases json
  | cons v elements ih =>
      cases ips with
      | nil => cases json
      | cons ip ips =>
          obtain ⟨first, rest⟩ := List.cons.inj json
          cases v with
          | stringValue string =>
              have same : string = ip := String.toList_inj.mp (Json.string.inj first)
              rw [List.map_cons, same, ih rest]
          | _ => cases first

theorem normal_strings (ips : List String) :
    normalElements double (ips.map fun ip => .string ip.toList) =
      ips.map fun ip => .string ip.toList := by
  induction ips with
  | nil => rfl
  | cons ip ips ih => rw [List.map_cons, List.map_cons, normalElements, ih, normal]

theorem tdiv_floor {seconds : Rat} (positive : 0 ≤ seconds) :
    seconds.num.tdiv seconds.den = ⌊seconds⌋ := by
  rw [Int.tdiv_eq_ediv_of_nonneg (Rat.num_nonneg.mpr positive), Rat.floor_def']

/-- A number of seconds, in whichever way the reader holds it. A fraction is cut off. -/
theorem asInt_delivered {v : Value} {seconds : Rat} (shaped : v.Shaped (Delivered double))
    (json : v.json = .number (.finite seconds)) (positive : 1 ≤ seconds)
    (small : seconds ≤ 2147483647) : v.asInt = .ok (Int32.ofInt ⌊seconds⌋) := by
  cases shaped with
  | intValue int =>
      have same : (int.toInt : Rat) = seconds := Double.finite.inj (Json.number.inj json)
      rw [Value.asInt, ← same, Int.floor_intCast, Int32.ofInt_toInt]
  | uintValue uint inside =>
      have same : (uint.toNat : Rat) = seconds := Double.finite.inj (Json.number.inj json)
      have high : ((2147483648 : Nat) : Rat) ≤ uint.toNat := Nat.cast_le.mpr inside.1
      rw [same, Nat.cast_ofNat] at high
      linarith
  | realValue real =>
      have same : real.unsigned = .finite seconds := Json.number.inj json
      cases real with
      | finite value =>
          have equal : value = seconds := Double.finite.inj same
          have low : ((Value.minInt : Int) : Rat) ≤ seconds :=
            le_trans (Int.cast_nonpos.mpr (by decide)) (by linarith)
          have high : seconds ≤ ((Value.maxInt : Int) : Rat) := small
          rw [Value.asInt, equal, if_pos ⟨low, high⟩, tdiv_floor (by linarith)]
      | negativeZero =>
          have zero : 0 = seconds := Double.finite.inj same
          linarith
      | infinity => cases same
  | _ => cases json

theorem ofInt_positive {seconds : Rat} (positive : 1 ≤ seconds) (small : seconds ≤ 2147483647) :
    (0 : Int32) < Int32.ofInt ⌊seconds⌋ := by
  have least : 1 ≤ ⌊seconds⌋ := Int.le_floor.mpr positive
  have most : ⌊seconds⌋ ≤ 2147483647 := by
    have below := (Int.floor_le seconds).trans small
    exact_mod_cast below
  rw [Int32.lt_iff_toInt_lt, Int32.toInt_ofInt_of_le (by omega) (by omega)]
  exact least

theorem shaped_of_lookup {members : List (String × Value)} {name : String} {v : Value}
    {number : Value → Prop} (shaped : (Value.objectValue members).Shaped number)
    (found : Value.lookup name members = some v) : v.Shaped number := by
  cases shaped with
  | objectValue _ _ _ each => exact each _ (Value.lookup_mem found)

end text

/-! ## The Task -/

section task
variable {double : Rat → Rat} {ms : List (List Char × Json Rat)} {before text rest : List Char}
  {ips : List String} {seconds : Rat}

/-- What is asked for: these servers, with so many seconds for each, 5 when it is not said. -/
structure Asks (double : Rat → Rat) (ms : List (List Char × Json Rat)) (ips : List String)
    (seconds : Rat) : Prop where
  servers : find "servers".toList ms.reverse = some (.array (ips.map fun ip => .string ip.toList))
  few : ips.length < 65536
  delay : (find "timeout".toList ms.reverse).getD (.number 5) = .number seconds
  positive : 1 ≤ double seconds
  small : double seconds ≤ 2147483647

theorem Asks.found_servers (asks : Asks double ms ips seconds) {members : List (String × Value)}
    (finds : ∀ name, find name (Value.jsonMembers members) =
      (find name ms.reverse).map (normal double)) :
    Value.lookup "servers" members = some (.arrayValue (ips.map .stringValue)) := by
  have found := finds "servers".toList
  rw [Value.find_jsonMembers, asks.servers] at found
  obtain ⟨v, lookup, json⟩ := Option.map_eq_some_iff.mp found
  rw [normal, normal_strings] at json
  rw [lookup]
  cases v with
  | arrayValue elements => rw [strings_of_json (Json.array.inj json)]
  | _ => cases json

theorem Asks.found_timeout (asks : Asks double ms ips seconds) (rounding : Exact double)
    {members : List (String × Value)}
    (shaped : (Value.objectValue members).Shaped (Delivered double))
    (finds : ∀ name, find name (Value.jsonMembers members) =
      (find name ms.reverse).map (normal double)) :
    ((Value.lookup "timeout" members).getD (.intValue 5)).asInt =
      .ok (Int32.ofInt ⌊double seconds⌋) := by
  have found := finds "timeout".toList
  have delay := asks.delay
  rw [Value.find_jsonMembers] at found
  cases asked : find "timeout".toList ms.reverse with
  | none =>
      rw [asked, Option.map_none, Option.map_eq_none_iff] at found
      rw [asked] at delay
      have five : (5 : Rat) = seconds := Json.number.inj delay
      have exactly : double 5 = 5 := rounding 5 (by decide)
      rw [found, ← five, exactly]
      rfl
  | some j =>
      rw [asked, Option.map_some] at found
      rw [asked] at delay
      obtain ⟨v, lookup, json⟩ := Option.map_eq_some_iff.mp found
      have same : j = .number seconds := delay
      have small : |double seconds| < Double.bound := by
        have positive := asks.positive
        rw [abs_of_nonneg (by linarith)]
        calc double seconds ≤ 2147483647 := asks.small
          _ < 2 ^ 32 := by norm_num
          _ ≤ Double.bound := Double.pow_le_bound (by decide)
      rw [same, normal, Double.read_of_small small] at json
      rw [lookup]
      exact asInt_delivered (shaped_of_lookup shaped lookup) json asks.positive asks.small

/-- Whatever blanks, comments and other members the body has, in whatever order and however its
numbers and strings are written, the Task pings the servers asked for, in their order, and
gives each the time asked for. -/
theorem request_task (rounding : Exact double) (layout : Layout Fits (.value (.object ms)) text)
    (filler : Filler before) (ends : Ends rest) (asks : Asks double ms ips seconds)
    {req : EvhttpRequest} (method : req.cmdType = .post) (clean : 0 ∉ req.inputBuffer)
    (chars : req.inputBuffer.map Char.ofUInt8 = before ++ (text ++ rest)) {site : Allocation}
    (turns : ips.length < site.fuel) :
    (∃ body, JsonValue.parse double (HttpHandler.recvReqInput req) = some body) ∧
      HttpHandler.constructed (JsonValue.parse double) req site =
        some (Task.tableTask site.task site.raw (Int32.ofInt ⌊double seconds⌋) ips) := by
  obtain ⟨v, members, parsed, shaped, json, _, finds⟩ :=
    JsonValue.parse_object rounding layout filler ends chars
  cases v with
  | objectValue held =>
      have same : Value.jsonMembers held = members := Json.object.inj json
      subst same
      have servers := asks.found_servers finds
      have delay := asks.found_timeout rounding shaped finds
      have at_servers : (Value.objectValue held).member "servers" =
          .ok (.arrayValue (ips.map .stringValue)) := by
        rw [Value.member, servers]
        rfl
      have count : (Value.arrayValue (ips.map .stringValue)).size = UInt32.ofNat ips.length := by
        rw [Value.size, List.length_map]
      have run := @Task.ofJson_run site.task (.arrayValue (ips.map .stringValue))
        (Int32.ofInt ⌊double seconds⌋) ips site.raw (.objectValue held) _ (Task.reads_strings ips)
        asks.few rfl delay (ofInt_positive asks.positive asks.small) at_servers rfl rfl count site.fuel
      rw [if_pos turns] at run
      refine ⟨⟨_, HttpHandler.recvReqInput_clean clean ▸ parsed⟩, ?_⟩
      rw [HttpHandler.constructed, HttpHandler.construct, if_neg (not_not.mpr method),
        HttpHandler.recvReqInput_clean clean, parsed]
      dsimp only
      rw [run]
  | _ => cases json

end task

/-! ## The answer -/

section answer
variable {double : Rat → Rat} {W : Nat} {s : Server W} {req : EvhttpRequest}
  {site : Allocation} {ms : List (List Char × Json Rat)} {before text rest : List Char}
  {ips : List String} {seconds : Rat} {task : TaskPtr} {reply : Reply}

/-- What those who ask for these servers are answered: that the server is busy, or the
results for the servers in their order, each as the history of its ping has it. -/
inductive Server.Informs (s : Server W) (task : TaskPtr) (ips : List String) : Value → Prop
  | busy (i : Fin W) (unstarted : ∀ k, pingLog task k (s.traces i) = []) :
      Informs s task ips (Task.refusal 1005)
  | results (i : Fin W) (results : List Value) (count : results.length = ips.length)
      (each : ∀ (k : Nat) ip, ips[k]? = some ip → ∃ v, results[k]? = some v ∧
        s.Reports i task k ip v) : Informs s task ips (Task.response results)

theorem tableTask_ips {self : TaskPtr} {raw : RawMemory} {timeout : Int32} :
    (Task.tableTask self raw timeout ips).ips = ips := by
  have pings : (Task.tableTask self raw timeout ips).pings =
      Task.filledFrom self timeout ips 0 (Task.freshPings raw ips.length) := rfl
  rw [Task.ips, pings]
  have length : (Task.filledFrom self timeout ips 0 (Task.freshPings raw ips.length)).length =
      ips.length := (Task.filledFrom_length 0 _).trans (Task.freshPings_length raw _)
  apply List.ext_getElem
  · rw [List.length_map, length]
  · intro k before inside
    rw [List.length_map] at before
    have entry := @Task.filledFrom_getElem? self timeout ips 0 (Task.freshPings raw ips.length) k
    rw [List.getElem?_eq_getElem before] at entry
    obtain ⟨p, -, filled⟩ := Option.map_eq_some_iff.mp entry.symm
    rw [if_pos ⟨Nat.zero_le k, inside⟩] at filled
    rw [List.getElem_map, ← filled, Ping.fill, List.getD_eq_getElem?_getD,
      List.getElem?_eq_getElem inside]
    rfl

theorem Server.Deserves.informs {parse : List UInt8 → Option Value} {timeout : Int32}
    {reply : Reply} (deserves : s.Deserves parse req site
      (Task.tableTask site.task site.raw timeout ips) reply)
    (method : req.cmdType = .post)
    (found : ∃ body, parse (HttpHandler.recvReqInput req) = some body) :
    ∃ answer, reply = .sendReply 200 "OK" [answer] ∧ s.Informs site.task ips answer := by
  cases deserves with
  | notAllowed other => exact absurd method other
  | unsupported _ none =>
      obtain ⟨body, found⟩ := found
      rw [none] at found
      cases found
  | rejected _ _ _ bad => cases bad
  | busy i _ _ unstarted => exact ⟨_, rfl, .busy i unstarted⟩
  | results i results _ _ count each =>
      rw [tableTask_ips] at count each
      exact ⟨_, rfl, .results i results count each⟩

theorem Server.Answers.sent {parse : List UInt8 → Option Value}
    (answers : s.Answers parse req site task reply) : ∃ s' : Server W,
      (serverSystem parse W).Reachable (fun _ _ => True) s' ∧
        .replied req.self task reply ∈ s'.history := by
  cases answers with
  | @mk s₀ s₁ s' rand history reached offered received run byte served answer =>
      have taken : (serverSystem parse W).Runs (fun _ _ => True) s₀ s₁ :=
        .step (.request req site rand) (.refl s₀) offered trivial received
      have waited := taken.trans (run.mono fun _ _ _ => trivial)
      have answered := reached.extend (.step .respond waited byte trivial served)
      exact ⟨s', answered, answer ▸ List.mem_cons_of_mem _ List.mem_cons_self⟩

end answer

namespace Sample

def textMembers : List (List Char × Json Rat) :=
  [("servers".toList, .array [.string "192.0.2.1".toList])]

def textRequest : EvhttpRequest := ⟨100, .post, text⟩

theorem text_layout : Layout Fits (.value (.object textMembers)) (text.map Char.ofUInt8) := by
  have name : '\x00' ∉ "servers".toList := by decide
  have ip : '\x00' ∉ "192.0.2.1".toList := by decide
  exact .object (.lastMember filler_nil (flatMap_quoted name) blank_nil filler_nil
    (.array (.lastElement filler_nil (.string (flatMap_quoted ip)) blank_nil)) filler_nil)

theorem text_asks : Asks id textMembers ["192.0.2.1"] 5 where
  servers := rfl
  few := by decide
  delay := rfl
  positive := by norm_num
  small := by norm_num

theorem text_clean : 0 ∉ text := by decide

theorem text_task : HttpHandler.constructed (JsonValue.parse id) textRequest ⟨7, raw, 2⟩ =
    some (Task.tableTask 7 raw 5 ["192.0.2.1"]) := by
  have ends : Ends [] := fun c head => by cases head
  have turns : ["192.0.2.1"].length < 2 := by decide
  exact (request_task (fun _ _ => rfl) text_layout filler_nil ends text_asks rfl text_clean
    (List.append_nil _).symm turns).2

/-- The reader makes of the text what it is said to make of it. -/
theorem text_taken : (ServerMove.request textRequest ⟨7, raw, 2⟩ 0 : ServerMove 2).serve
    (JsonValue.parse id) server = .ok taken := by
  have run := constructed_run text_task
  have run' : (HttpHandler.construct parse textRequest ⟨7, raw, 2⟩).run =
    some (.ok (Task.tableTask 7 raw 5 ["192.0.2.1"])) := rfl
  have same : HttpHandler.construct (JsonValue.parse id) textRequest ⟨7, raw, 2⟩ =
    HttpHandler.construct parse textRequest ⟨7, raw, 2⟩ := ExceptT.ext (run.trans run'.symm)
  have taken : (ServerMove.request textRequest ⟨7, raw, 2⟩ 0 : ServerMove 2).serve parse server =
    .ok taken := rfl
  rw [ServerMove.serve, HttpServer.handlePingReq] at taken ⊢
  rwa [same]

/-- The reply has come. -/
def due : Server 2 := ((serverSystem parse 2).follow (Server.Spares 100) taken
  [.worker first (.notified 50 (sends 60)), .worker first (.datagram 50 0 0 90)]).get rfl

theorem due_runs : (serverSystem (JsonValue.parse id) 2).Runs (Server.Spares 100) taken due :=
  .step (.worker first (.datagram 50 0 0 90)) (.step (.worker first (.notified 50 (sends 60)))
    (.refl taken) (by decide) trivial rfl) (by decide) trivial rfl

/-- What the sender of the text is told. -/
def told : Value := Task.response [.objectValue
  [("avgRtt", .realValue (.finite ((30 : Int) / 1000))), ("ip", .stringValue "192.0.2.1"),
    ("lossRate", .realValue (.finite 0))]]

theorem due_enabled : (ServerMove.respond : ServerMove 2).enabled (JsonValue.parse id) due := by
  decide

/-- The answer has been sent. -/
def informed : Server 2 := ((serverSystem parse 2).follow (fun _ _ => True) due [.respond]).get rfl

theorem due_served : (ServerMove.respond : ServerMove 2).serve (JsonValue.parse id) due =
    .ok informed := rfl

theorem informed_history : informed.history =
    [.deleted 7, .replied 100 7 (.sendReply 200 "OK" [told]), .received 100 7] := rfl

theorem text_offered : (ServerMove.request textRequest ⟨7, raw, 2⟩ 0 : ServerMove 2).enabled
    (JsonValue.parse id) server := by
  refine ⟨rfl, rfl, by decide, ?_⟩
  rw [text_task]
  rfl

theorem due_answers : due.Answers (JsonValue.parse id) textRequest ⟨7, raw, 2⟩ 7
    (.sendReply 200 "OK" [told]) :=
  .mk ⟨server, server_boots, .refl _⟩ text_offered text_taken due_runs due_enabled due_served
    informed_history

end Sample

/-- Whatever requests came, whatever the network and the clocks did: every document the
server has sent could be written, no double in it was infinite, and who reads its text finds
what was put there. -/
theorem replies_readable {double : Rat → Rat} (rounds : Rounds double) {W : Nat} (workers : 0 < W)
    {s : Server W} (reached : (serverSystem (JsonValue.parse double) W).Reachable
      (fun _ _ => True) s) {req : RequestPtr} {task : TaskPtr} {code : Int} {reason : String}
    {docs : List Value} (sent : .replied req task (.sendReply code reason docs) ∈ s.history)
    {body : Value} (member : body ∈ docs) :
    body.Finite double ∧ ∃ text, StyledStreamWriter.write double uncommented body = .ok text ∧
      ∀ root collectComments,
        ∃ v, Reader.parse double text root collectComments = .ok (true, v, []) ∧
          v.json = body.json.mapNumbers fun real => .read double (real.rounded double).printed := by
  have speaks := Server.Speaks.of_reachable rounds workers (parse_writable double) reached
  have sendable := speaks.replies req task code reason docs sent body member
  exact ⟨sendable.isFinite, sendable.readable rounds.exactly⟩

theorem replies_readable_number : Sample.told.Finite id ∧
    ∃ text, StyledStreamWriter.write id uncommented Sample.told = .ok text ∧
      ∀ root collectComments,
        ∃ v, Reader.parse id text root collectComments = .ok (true, v, []) ∧
          v.json = Sample.told.json.mapNumbers fun real => .read id (real.rounded id).printed := by
  obtain ⟨s, reached, sent⟩ := Sample.due_answers.sent
  exact replies_readable ⟨fun _ _ _ _ => rfl, monotone_id⟩ (by decide) reached sent
    (List.mem_singleton_self _)

end AsyncPing
