import AsyncPing.Metatheory.ReplyText

/-!
From a request to its answer, across the whole server. Between the two the Task is passed
from the HTTP thread to a worker and back; what is sent in the end is what the request
deserves, and for each of its servers what happened to the ping in the run.
-/
namespace AsyncPing

variable {W : Nat} {parse : List UInt8 → Option Value} {s s' : Server W} {task : TaskPtr}
  {t₀ : Task} {req : RequestPtr}

/-- The Task built for a request has not been answered yet. -/
inductive Server.Waits (s : Server W) (task : TaskPtr) (t₀ : Task) : Prop
  | rejected (bad : t₀.prepareError = true) (live : s.heap task = some t₀)
      (member : task ∈ s.master.responseQueue)
  | held (i : Fin W) (ok : t₀.prepareError = false) (holds : (s.focus i).Holds task)
      (enqueued : origin task (s.traces i) = some t₀) : Waits s task t₀
  | returned (i : Fin W) (ok : t₀.prepareError = false) (back : (s.focus i).Returned task)
      (member : task ∈ s.master.responseQueue) (enqueued : origin task (s.traces i) = some t₀) :
      Waits s task t₀

/-- This move does not answer the request. -/
def Server.Spares (req : RequestPtr) (s : Server W) : ServerMove W → Prop
  | .respond => ∀ popped ∈ Sequence.popTail s.master.responseQueue,
      s.doingRequest popped.1 ≠ some req
  | .request _ _ _ | .worker _ _ => True

instance (req : RequestPtr) (s : Server W) (l : ServerMove W) : Decidable (s.Spares req l) :=
  match l with
  | .respond => inferInstanceAs (Decidable (∀ popped ∈ Sequence.popTail s.master.responseQueue,
      s.doingRequest popped.1 ≠ some req))
  | .request _ _ _ | .worker _ _ => inferInstanceAs (Decidable True)

namespace Server.Waits

theorem live (waits : s.Waits task t₀) (inv : ServerInv s) : (s.heap task).isSome = true := by
  cases waits with
  | rejected bad live => rw [live]; rfl
  | held i ok holds => exact inv.live_of_holds holds
  | returned i ok back =>
      obtain ⟨t, timers, rest, live, log⟩ := back.frozen
      change s.heap task = some t at live
      rw [live]
      rfl

/-- A worker's handler keeps what it does not hold in the response queue. -/
theorem still_member {w w' : World} (acts : w.Acts w') (member : task ∈ w.master.responseQueue)
    (free : ¬w.Holds task) : task ∈ w'.master.responseQueue := by
  have before := acts.custody task
  have later : ¬w'.Holds task := mt (acts.held task) free
  simp only [World.Holds, not_or] at free later
  have present := List.count_pos_iff.mpr member
  rw [World.holdings, World.holdings, List.count_eq_zero.mpr free.1,
    List.count_eq_zero.mpr later.1, if_neg free.2, if_neg later.2] at before
  exact List.count_pos_iff.mp (by omega)

/-- What a worker lets go is in the response queue, as it was handed back. -/
theorem handed_back {w w' : World} (acts : w.Acts w') (holds : w.Holds task)
    (absent : task ∉ w.master.responseQueue) (gone : ¬w'.Holds task) :
    w'.Returned task ∧ task ∈ w'.master.responseQueue := by
  have before := acts.custody task
  have some : 0 < w.holdings task := by
    rw [World.holdings]
    cases holds with
    | inl queued =>
        have present := List.count_pos_iff.mpr queued
        omega
    | inr admitted =>
        rw [if_pos admitted]
        omega
  simp only [World.Holds, not_or] at gone
  have member : task ∈ w'.master.responseQueue := by
    rw [World.holdings, List.count_eq_zero.mpr gone.1, if_neg gone.2] at before
    exact List.count_pos_iff.mp (by omega)
  exact ⟨(acts.responses task member).resolve_left absent, member⟩

/-- A move of worker `i`. -/
theorem resume (waits : s.Waits task t₀) (inv : ServerInv s) {i : Fin W} {w' : World}
    (acts : (s.focus i).Acts w') (same : account w' = account (s.focus i)) :
    (s.resume i w').Waits task t₀ := by
  have origins : ∀ j, origin task ((s.resume i w').traces j) = origin task (s.traces j) := by
    intro j
    by_cases this : j = i
    · subst this
      have sent : dispatched w'.trace = dispatched (s.traces j) := congrArg Prod.snd same
      have own : origin task w'.trace = origin task (s.traces j) := by
        rw [origin_eq_find, origin_eq_find, sent]
      change origin task (Function.update s.traces j w'.trace j) = _
      rw [Function.update_self]
      exact own
    · change origin task (Function.update s.traces i w'.trace j) = _
      rw [Function.update_of_ne this]
  cases waits with
  | rejected bad live member =>
      have free := (inv.of_response member).2 i
      exact .rejected bad ((acts.heap task free).trans live) (still_member acts member free)
  | held j ok holds enqueued =>
      by_cases this : j = i
      · subst this
        by_cases still : w'.Holds task
        · refine .held j ok ?_ ((origins j).trans enqueued)
          rw [Server.focus_resume_self]
          exact still
        · have absent : task ∉ (s.focus j).master.responseQueue := fun member =>
            (inv.of_response member).2 j holds
          obtain ⟨back, member⟩ := handed_back acts holds absent still
          refine .returned j ok ?_ member ((origins j).trans enqueued)
          rw [Server.focus_resume_self]
          exact back
      · refine .held j ok ?_ ((origins j).trans enqueued)
        rw [Server.focus_resume_of_ne this]
        exact holds
  | returned j ok back member enqueued =>
      have free := (inv.of_response member).2
      refine .returned j ok ?_ (still_member acts member (free i)) ((origins j).trans enqueued)
      by_cases this : j = i
      · subst this
        rw [Server.focus_resume_self]
        exact back.acts acts
      · rw [Server.focus_resume_of_ne this]
        obtain ⟨t, timers, rest, live, log⟩ := back.frozen
        exact ⟨free j, t, timers, rest, (acts.heap task (free i)).trans live, log⟩

/-- A state in which only other addresses have changed. -/
theorem elsewhere (waits : s.Waits task t₀) (heap : s'.heap task = s.heap task)
    (holds : ∀ i, (s.focus i).Holds task ↔ (s'.focus i).Holds task)
    (origins : ∀ i, origin task (s'.traces i) = origin task (s.traces i))
    (logs : ∀ i, taskLog task (s'.traces i) = taskLog task (s.traces i))
    (responses : task ∈ s.master.responseQueue → task ∈ s'.master.responseQueue) :
    s'.Waits task t₀ := by
  cases waits with
  | rejected bad live member => exact .rejected bad (heap.trans live) (responses member)
  | held i ok isHeld enqueued => exact .held i ok ((holds i).mp isHeld) ((origins i).trans enqueued)
  | returned i ok back member enqueued =>
      obtain ⟨t, timers, rest, live, log⟩ := back.frozen
      exact .returned i ok ⟨mt (holds i).mpr back.free, t, timers, rest, heap.trans live,
        (logs i).trans log⟩ (responses member) ((origins i).trans enqueued)

theorem move (waits : s.Waits task t₀) (inv : ServerInv s) (workers : 0 < W)
    (request : s.doingRequest task = some req) {l : ServerMove W} (spares : s.Spares req l)
    (offered : l.enabled parse s) (served : l.serve parse s = .ok s') :
    s'.Waits task t₀ ∧ s'.doingRequest task = some req := by
  have live := waits.live inv
  cases l with
  | request req' site rand =>
      have other : task ≠ site.task := by
        intro same
        rw [same, offered.1] at live
        cases live
      cases inv.moved workers offered served with
      | rejected _ _ _ t free fresh built bad =>
          refine ⟨waits.elsewhere (Function.update_of_ne other ..) (fun i => Iff.rfl)
            (fun i => rfl) (fun i => rfl) (List.mem_cons_of_mem _), ?_⟩
          exact (Function.update_of_ne other ..).trans request
      | passedOn _ _ _ t i free fresh built ready =>
          refine ⟨waits.elsewhere (Function.update_of_ne other ..) (fun j => ?_) (fun j => ?_)
            (fun j => ?_) id, (Function.update_of_ne other ..).trans request⟩
          all_goals by_cases this : j = i
          · subst this
            simp [World.Holds, Server.focus, Server.passOn, HttpServer.enqueueAt, Server.receive,
              TaskWorker.notify, TaskWorker.enqueueTask, doingTasks, other]
          · simp [World.Holds, Server.focus, Server.passOn, HttpServer.enqueueAt, Server.receive,
              Function.update_of_ne this]
          · subst this
            simp [Server.passOn, HttpServer.enqueueAt, Server.receive, origin, Ne.symm other]
          · simp [Server.passOn, HttpServer.enqueueAt, Server.receive, Function.update_of_ne this]
          · subst this
            simp [Server.passOn, HttpServer.enqueueAt, Server.receive, taskLog, Ne.symm other]
          · simp [Server.passOn, HttpServer.enqueueAt, Server.receive, Function.update_of_ne this]
  | worker i move =>
      obtain ⟨w', run, rfl⟩ := resume_of_serve served
      have moved := (inv.worker i).moved offered.2 run
      have advances := moved.advances (inv.worker i) offered.1
      exact ⟨waits.resume inv advances.acts (WorkerMove.serve_account offered.1 run), request⟩
  | respond =>
      cases inv.moved workers offered served with
      | answered task' req' rest t response popped request' live' filled =>
          have other : task ≠ task' := by
            rintro rfl
            exact spares (task, rest) popped request
          have kept : task ∈ s.master.responseQueue → task ∈ rest := by
            rw [Sequence.popTail_eq_some.mp popped]
            intro member
            exact (List.mem_append.mp member).resolve_right
              fun last => other (List.mem_singleton.mp last)
          refine ⟨waits.elsewhere (Function.update_of_ne other ..) (fun i => Iff.rfl)
            (fun i => rfl) (fun i => rfl) kept, ?_⟩
          exact (Function.update_of_ne other ..).trans request

/-- Until it is answered, a request keeps waiting. -/
theorem run (waits : s.Waits task t₀) (inv : ServerInv s) (workers : 0 < W)
    (request : s.doingRequest task = some req)
    (run : (serverSystem parse W).Runs (Server.Spares req) s s') :
    ServerInv s' ∧ s'.Waits task t₀ ∧ s'.doingRequest task = some req := by
  refine run.keeps (I := fun s => ServerInv s ∧ s.Waits task t₀ ∧ s.doingRequest task = some req)
    ⟨inv, waits, request⟩ ?_
  rintro s l s' ⟨inv, waits, request⟩ offered spares served
  exact ⟨inv.of_moved (inv.moved workers offered served),
    waits.move inv workers request spares offered served⟩

end Server.Waits

/-- A request that has been taken in waits. -/
theorem ServerInv.waits_after (inv : ServerInv s) (workers : 0 < W) {req : EvhttpRequest}
    {site : Allocation} {rand : Nat} (built : HttpHandler.constructed parse req site = some t₀)
    (offered : (ServerMove.request req site rand : ServerMove W).enabled parse s)
    (served : (ServerMove.request req site rand : ServerMove W).serve parse s = .ok s') :
    s'.Waits site.task t₀ ∧ s'.doingRequest site.task = some req.self := by
  cases inv.moved workers offered served with
  | rejected _ _ _ t free fresh built' bad =>
      rw [built, Option.some.injEq] at built'
      subst built'
      exact ⟨.rejected bad (Function.update_self ..) List.mem_cons_self, Function.update_self ..⟩
  | passedOn _ _ _ t i free fresh built' ready =>
      rw [built, Option.some.injEq] at built'
      subst built'
      refine ⟨.held i ready.noError (.inl ?_) ?_, Function.update_self ..⟩
      · simp [Server.focus, Server.passOn, HttpServer.enqueueAt, TaskWorker.notify,
          TaskWorker.enqueueTask]
      · simp [Server.passOn, HttpServer.enqueueAt, origin]

/-! ## The answer -/

/-- The clock has never gone back, nor beyond what a signed number holds. -/
def Steady (clock : List UInt64) : Prop :=
  clock.Pairwise (· ≥ ·) ∧ ∀ time ∈ clock, time.toNat ≤ INT64_MAX

/-- The entry of a ping is as its history has it, and where the clock was steady its time is
the time that went by. -/
structure Server.Reports (s : Server W) (i : Fin W) (task : TaskPtr) (k : Nat) (ip : String)
    (v : Value) : Prop where
  recounts : (s.focus i).Recounts task k ip v
  tells : Steady (readings (s.traces i)) → (s.focus i).Tells task k ip v

/-- What a request deserves to be answered: an error page, a refusal with its reason, or the
results for its servers, each as the history of its ping has it. -/
inductive Server.Deserves (parse : List UInt8 → Option Value) (s : Server W) (req : EvhttpRequest)
    (site : Allocation) (t₀ : Task) : Reply → Prop
  | notAllowed (method : req.cmdType ≠ .post) :
      Deserves parse s req site t₀ (.sendError 405 "Method Not Allowed")
  | unsupported (method : req.cmdType = .post)
      (text : parse (HttpHandler.recvReqInput req) = none) :
      Deserves parse s req site t₀ (.sendError 415 "Unsupported Media Type")
  | rejected (body : Value) (method : req.cmdType = .post)
      (text : parse (HttpHandler.recvReqInput req) = some body) (bad : t₀.prepareError = true)
      (code : t₀.preErrorCode ∈ [(1001 : Int), 1002, 1003, 1004]) :
      Deserves parse s req site t₀ (.sendReply 200 "OK" [Task.refusal t₀.preErrorCode])
  | busy (i : Fin W) (ok : t₀.prepareError = false)
      (enqueued : origin site.task (s.traces i) = some t₀)
      (unstarted : ∀ k, pingLog site.task k (s.traces i) = []) :
      Deserves parse s req site t₀ (.sendReply 200 "OK" [Task.refusal 1005])
  | results (i : Fin W) (results : List Value) (ok : t₀.prepareError = false)
      (enqueued : origin site.task (s.traces i) = some t₀)
      (count : results.length = t₀.ips.length)
      (each : ∀ (k : Nat) ip, t₀.ips[k]? = some ip → ∃ v, results[k]? = some v ∧
        s.Reports i site.task k ip v) :
      Deserves parse s req site t₀ (.sendReply 200 "OK" [Task.response results])

theorem rejected_code {self : TaskPtr} {raw : RawMemory} {fuel : Nat} {body : Value} {t : Task}
    (returned : Returns (Task.ofJson self raw fuel body) t) (bad : t.prepareError = true) :
    t.preErrorCode ∈ [(1001 : Int), 1002, 1003, 1004] := by
  simp only [Task.ofJson] at returned
  split at returned
  · cases returned
    simp
  obtain ⟨entry, _, returned⟩ := returned.of_lift
  obtain ⟨timeout, _, returned⟩ := returned.of_lift
  split at returned
  · cases returned
    simp
  obtain ⟨servers, _, returned⟩ := returned.of_lift
  split at returned
  · cases returned
    simp
  split at returned
  · cases returned
    simp
  split at returned
  · cases returned
  obtain ⟨filled, _, returned⟩ := returned.of_bind
  cases returned
  cases bad

/-- The answer to a request that the HTTP thread rejected itself. -/
theorem rejected_deserves {req : EvhttpRequest} {site : Allocation} {self : RequestPtr}
    {response : HttpResponse} (built : HttpHandler.constructed parse req site = some t₀)
    (bad : t₀.prepareError = true)
    (filled : t₀.fillHttpResponse site.task (.ofRequest self) = .ok response) :
    s.Deserves parse req site t₀ response.doResponse := by
  have run := constructed_run built
  rw [HttpHandler.construct] at run
  split at run
  · rename_i method
    cases run
    cases filled
    exact .notAllowed method
  · rename_i method
    have post := not_not.mp method
    cases parsed : parse (HttpHandler.recvReqInput req) with
    | none =>
        rw [parsed] at run
        cases run
        cases filled
        exact .unsupported post parsed
    | some body =>
        rw [parsed] at run
        change Returns (Task.ofJson site.task site.raw site.fuel body) t₀ at run
        have code := rejected_code run bad
        have high : ¬(t₀.preErrorCode > 0 ∧ t₀.preErrorCode < 1000) := by
          simp only [List.mem_cons, List.not_mem_nil, or_false] at code
          omega
        rw [Task.fillHttpResponse, if_neg high, buildResponse_refusal _ bad] at filled
        cases filled
        exact .rejected body post parsed bad code

/-- The answer to a request whose Task a worker has handed back. -/
theorem returned_deserves {req : EvhttpRequest} {site : Allocation} {self : RequestPtr}
    {response : HttpResponse} {t : Task} {i : Fin W} (inv : ServerInv s)
    (ok : t₀.prepareError = false) (back : (s.focus i).Returned site.task)
    (enqueued : origin site.task (s.traces i) = some t₀) (live : s.heap site.task = some t)
    (filled : t.fillHttpResponse site.task (.ofRequest self) = .ok response) :
    s.Deserves parse req site t₀ response.doResponse := by
  obtain ⟨t', timers, rest, live', log⟩ := back.frozen
  change s.heap site.task = some t' at live'
  rw [live, Option.some.injEq] at live'
  subst live'
  have life := (inv.worker i).task site.task
  rw [log] at life
  cases life with
  | refused t₁ timers gone unstarted fresh enqueued' =>
      change origin site.task (s.traces i) = some t₁ at enqueued'
      rw [enqueued, Option.some.injEq] at enqueued'
      subst enqueued'
      rw [Task.fillHttpResponse, if_neg (by simp), buildResponse_refusal _ rfl] at filled
      cases filled
      exact .busy i ok enqueued fun k => (unstarted k).1
  | returned t timers gone serving all =>
      have terminal := serving.all_terminal (by omega)
      obtain ⟨t₁, enqueued', ips⟩ := serving.source
      change origin site.task (s.traces i) = some t₁ at enqueued'
      rw [enqueued, Option.some.injEq] at enqueued'
      subst enqueued'
      have code : ¬(t.preErrorCode > 0 ∧ t.preErrorCode < 1000) := by
        rw [serving.noCode]
        omega
      rw [Task.fillHttpResponse, if_neg code, t.buildResponse_eq _ serving.total serving.noError]
        at filled
      cases filled
      refine .results i _ ok enqueued ?_ fun k ip at_k => ?_
      · rw [Task.ips, ips, List.length_map, List.length_map]
      · rw [Task.ips, ips, List.getElem?_map] at at_k
        obtain ⟨p, entry, rfl⟩ := Option.map_eq_some_iff.mp at_k
        refine ⟨Task.result p, by rw [List.getElem?_map, entry]; rfl, ?_⟩
        have closed := terminal p (List.mem_of_getElem? entry)
        exact ⟨serving.recounts entry closed,
          fun steady => serving.tells entry closed steady.1 steady.2⟩

/-- A run of the server in which the request is taken in at some point; in the state `s` it is
answered, for the first time since. -/
inductive Server.Answers (parse : List UInt8 → Option Value) (req : EvhttpRequest)
    (site : Allocation) (s : Server W) (task : TaskPtr) (reply : Reply) : Prop
  | mk {s₀ s₁ s' : Server W} {rand : Nat} {history : List ServerEvent}
    (reached : (serverSystem parse W).Reachable (fun _ _ => True) s₀)
    (offered : (ServerMove.request req site rand : ServerMove W).enabled parse s₀)
    (received : (ServerMove.request req site rand : ServerMove W).serve parse s₀ = .ok s₁)
    (waiting : (serverSystem parse W).Runs (Server.Spares req.self) s₁ s)
    (byte : (ServerMove.respond : ServerMove W).enabled parse s)
    (served : (ServerMove.respond : ServerMove W).serve parse s = .ok s')
    (answer : s'.history = .deleted task :: .replied req.self task reply :: history) :
      Answers parse req site s task reply

section answers
variable {req : EvhttpRequest} {site : Allocation} {reply : Reply}

/-- The move that answers a request that waits answers it as it deserves. -/
theorem Server.Waits.answered (waits : s.Waits site.task t₀) (inv : ServerInv s) (workers : 0 < W)
    (request : s.doingRequest site.task = some req.self)
    (built : HttpHandler.constructed parse req site = some t₀)
    (byte : (ServerMove.respond : ServerMove W).enabled parse s)
    (served : (ServerMove.respond : ServerMove W).serve parse s = .ok s')
    {history : List ServerEvent}
    (answer : s'.history = .deleted task :: .replied req.self task reply :: history) :
    task = site.task ∧ s.Deserves parse req site t₀ reply := by
  cases inv.moved workers byte served with
  | answered task' req' rest t response popped request' live filled =>
      obtain ⟨deleted, answer⟩ := List.cons.inj answer
      obtain ⟨sent, -⟩ := List.cons.inj answer
      obtain ⟨rfl⟩ := ServerEvent.deleted.inj deleted
      obtain ⟨rfl, -, rfl⟩ := ServerEvent.replied.inj sent
      -- the request is pending for one Task only
      have mine := (inv.ledger.pending req.self site.task).mpr request
      have same := (inv.ledger.pending req.self task).mpr request'
      rw [mine, Option.some.injEq] at same
      subst same
      refine ⟨rfl, ?_⟩
      have member : site.task ∈ s.master.responseQueue := by
        simp [Sequence.popTail_eq_some.mp popped]
      cases waits with
      | rejected bad live' =>
          rw [live, Option.some.injEq] at live'
          subst live'
          exact rejected_deserves built bad filled
      | held i ok holds => exact absurd holds ((inv.of_response member).2 i)
      | returned i ok back _ enqueued =>
          exact returned_deserves inv ok back enqueued live filled

/-- The Task of a request waits until the request is answered. -/
theorem ServerInv.waiting {s₀ s₁ : Server W} {rand : Nat} (inv : ServerInv s₀) (workers : 0 < W)
    (built : HttpHandler.constructed parse req site = some t₀)
    (offered : (ServerMove.request req site rand : ServerMove W).enabled parse s₀)
    (received : (ServerMove.request req site rand : ServerMove W).serve parse s₀ = .ok s₁)
    (run : (serverSystem parse W).Runs (Server.Spares req.self) s₁ s) :
    ServerInv s ∧ s.Waits site.task t₀ ∧ s.doingRequest site.task = some req.self := by
  obtain ⟨waits, request⟩ := inv.waits_after workers built offered received
  exact waits.run (inv.of_moved (inv.moved workers offered received)) workers request run

/-- Every request is answered as it deserves. What was built for the request is what is
answered, whatever else was received, sent, answered and deleted in between. -/
theorem Server.Answers.deserved (workers : 0 < W) (answers : s.Answers parse req site task reply)
    (built : HttpHandler.constructed parse req site = some t₀) :
    task = site.task ∧ s.Deserves parse req site t₀ reply := by
  obtain ⟨reached, offered, received, run, byte, served, answer⟩ := answers
  obtain ⟨inv, waits, request⟩ :=
    (ServerInv.of_reachable workers reached).waiting workers built offered received run
  exact waits.answered inv workers request built byte served answer

end answers

namespace Sample

/-- The request for a server has been taken in. -/
def taken : Server 2 := ((serverSystem Sample.parse 2).follow (fun _ _ => True) server
  [.request ⟨100, .post, text⟩ ⟨7, raw, 2⟩ 0]).get rfl

/-- The other request has been answered and the reply has come. -/
def ready : Server 2 :=
  ((serverSystem Sample.parse 2).follow (Server.Spares 100) taken (serverMoves.drop 1)).get rfl

end Sample

theorem answers_deserved_ready :
    (7 : TaskPtr) = (⟨7, Sample.raw, 2⟩ : Allocation).task ∧
      Sample.ready.Deserves Sample.parse ⟨100, .post, Sample.text⟩ ⟨7, Sample.raw, 2⟩
        ((HttpHandler.constructed Sample.parse ⟨100, .post, Sample.text⟩ ⟨7, Sample.raw, 2⟩).get
          rfl)
        (.sendReply 200 "OK" [Task.response [.objectValue
          [("avgRtt", .realValue (.finite ((30 : Int) / 1000))), ("ip", .stringValue "192.0.2.1"),
            ("lossRate", .realValue (.finite 0))]]]) := by
  have taken : (serverSystem Sample.parse 2).Runs (Server.Spares 100) Sample.taken Sample.ready :=
    Machine.runs_of_follow _ _ _ (Option.some_get rfl).symm
  have answers := @Server.Answers.mk 2 Sample.parse ⟨100, .post, Sample.text⟩ ⟨7, Sample.raw, 2⟩
    Sample.ready 7 _ Sample.server Sample.taken _ 0 _ ⟨Sample.server, Sample.server_boots, .refl _⟩
    ⟨rfl, rfl, by decide, rfl⟩ rfl taken (by decide) rfl rfl
  exact answers.deserved (by decide) (Option.some_get rfl).symm

end AsyncPing
