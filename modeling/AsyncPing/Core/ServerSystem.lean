import AsyncPing.Core.HttpServer

/-!
The whole server in motion. Requests arrive, the event loops of the workers
serve bytes, datagrams and timers, and the HTTP thread answers what is in the
response queue. A move is one handler; moves come in any order.
-/
namespace AsyncPing

/-- The Task the constructor leaves, when it returns. -/
def HttpHandler.constructed (parse : List UInt8 → Option Value) (req : EvhttpRequest)
    (site : Allocation) : Option Task :=
  match (HttpHandler.construct parse req site).run with
  | some (.ok t) => some t
  | _ => none

inductive ServerMove (W : Nat)
  | request (req : EvhttpRequest) (site : Allocation) (rand : Nat)
  | worker (i : Fin W) (move : WorkerMove)
  | respond

/-- The server before its event loop starts. -/
def Server.Boots {W : Nat} (s : Server W) : Prop :=
  (∀ a, s.heap a = none) ∧ (∀ i, (s.focus i).Boots) ∧
    s.master = { responseQueue := [], notifyPipe := 0 } ∧ (∀ a, s.doingRequest a = none) ∧
    s.randedIndex = none ∧ s.history = []

namespace ServerMove
variable {W : Nat} (parse : List UInt8 → Option Value)

/-- `new` returns an address that is not live, and a request object is not
delivered again while it waits for its answer. -/
def enabled (s : Server W) : ServerMove W → Prop
  | request req site rand => s.heap site.task = none ∧ outstanding req.self s.history = none ∧
      rand ≤ RAND_MAX ∧ (HttpHandler.constructed parse req site).isSome
  | worker i move => move.InLoop ∧ move.enabled (s.focus i)
  | respond => 0 < s.master.notifyPipe

def serve : ServerMove W → Server W → Except Fault (Server W)
  | request req site rand, s => (HttpServer.handlePingReq parse req site rand s).map Prod.snd
  | worker i move, s => (move.serve (s.focus i)).map (s.resume i)
  | respond, s => (HttpServer.tryRespEventHandler s).map Prod.snd

/-- A delivered reply carries an index below `totalCount` of the task found. -/
def InRange (s : Server W) : ServerMove W → Prop
  | worker i move => move.InRange (s.focus i)
  | request _ _ _ | respond => True

instance (s : Server W) (l : ServerMove W) : Decidable (l.enabled parse s) :=
  match l with
  | request req site rand =>
      inferInstanceAs (Decidable (s.heap site.task = none ∧
        outstanding req.self s.history = none ∧ rand ≤ RAND_MAX ∧
        (HttpHandler.constructed parse req site).isSome))
  | worker i move => inferInstanceAs (Decidable (move.InLoop ∧ move.enabled (s.focus i)))
  | respond => inferInstanceAs (Decidable (0 < s.master.notifyPipe))

instance (s : Server W) (l : ServerMove W) : Decidable (l.InRange s) :=
  match l with
  | worker i move => inferInstanceAs (Decidable (move.InRange (s.focus i)))
  | request _ _ _ | respond => inferInstanceAs (Decidable True)

end ServerMove

/-- WORKER_NUM workers are registered, and the text parser is `parse`. -/
def serverSystem (parse : List UInt8 → Option Value) (W : Nat) :
    Machine (Server W) (ServerMove W) Fault where
  start := Server.Boots
  enabled s l := l.enabled parse s
  serve := ServerMove.serve parse

instance (parse : List UInt8 → Option Value) {W : Nat} (s : Server W) (l : ServerMove W) :
    Decidable ((serverSystem parse W).enabled s l) :=
  inferInstanceAs (Decidable (l.enabled parse s))

end AsyncPing
