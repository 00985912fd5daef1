import AsyncPing.Library.Potential
import AsyncPing.Metatheory.Stranding
import AsyncPing.Metatheory.WorkerChannel

/-!
The server comes to rest. Each ping that has not ended, each Task in a queue and each request
that has not been answered is work still to be done; a handler that has something to do does
some of it, and only a request brings more.
-/
namespace AsyncPing

/-! ## Work -/

/-- A ping waits for this reply. -/
def World.Awaits (w : World) (timestamp : UInt64) (index : UInt16) : Prop :=
  ∃ t ∈ w.found timestamp, ∃ p ∈ t.pings[index.toNat]?, p.status = .doing

/-- The handler has something to do. -/
def WorkerMove.Works (w : World) : WorkerMove → Prop
  | notified _ _ | expired _ _ => True
  | datagram timestamp _ index _ => w.Awaits timestamp index
  | request _ _ _ _ | deleted _ => False

namespace World

/-- How many of its pings have not ended. -/
def remaining (w : World) (a : TaskPtr) : Nat :=
  (w.heap a).elim 0 fun t => (t.totalCount - t.doneCount).toNat

/-- What one Task still asks of the worker. -/
def loadAt (w : World) (a : TaskPtr) : Nat :=
  (if a ∈ w.worker.taskQueue.toFinset then w.remaining a + 1 else 0) +
    if a ∈ doingTasks w.trace then w.remaining a else 0

def load (w : World) : Nat :=
  ∑ a ∈ w.worker.taskQueue.toFinset, (w.remaining a + 1) + ∑ a ∈ doingTasks w.trace, w.remaining a

end World

section worker
variable {w w' : World} {task : TaskPtr} {t t' : Task} {l : WorkerMove}

theorem World.remaining_of_live (live : w.heap task = some t) :
    w.remaining task = (t.totalCount - t.doneCount).toNat := by
  rw [World.remaining, live]
  rfl

theorem World.Touches.doing_erase (touches : w.Touches task w') :
    (doingTasks w'.trace).erase task = (doingTasks w.trace).erase task := by
  ext a
  rw [Finset.mem_erase, Finset.mem_erase]
  exact and_congr_right fun other => (touches.keeps a other).doing

/-- The load changes by what the Task concerned still asks for. -/
theorem World.Touches.load (touches : w.Touches task w')
    (queue : w'.worker.taskQueue.toFinset.erase task = w.worker.taskQueue.toFinset.erase task) :
    w'.load + w.loadAt task = w.load + w'.loadAt task := by
  have same : ∀ a, a ≠ task → w'.remaining a = w.remaining a := fun a other => by
    rw [World.remaining, World.remaining, touches.heap a other]
  have queued := Sequence.sum_erase_change queue fun a other => congrArg (· + 1) (same a other)
  have doing := Sequence.sum_erase_change touches.doing_erase same
  simp only [World.load, World.loadAt]
  omega

/-- A handler that closes a waiting ping of a Task takes one off. -/
theorem WorkerInv.closes_load {i : Nat} {p p' : Ping} {evs : List Event} (inv : WorkerInv none w)
    (held : task ∈ doingTasks w.trace) (live : w.heap task = some t)
    (entry : t.pings[i]? = some p) (waiting : p.status = .doing)
    (at_i : ∀ e ∈ evs, e.Local task i) :
    ((w.touchPing task i (t.close i p') none evs).finish task (t.close i p')).load < w.load := by
  have touches := (@touchPing_touches w task (t.close i p') i none evs at_i).trans
    (@finish_touches _ task (t.close i p'))
  have queue : ((w.touchPing task i (t.close i p') none evs).finish task
      (t.close i p')).worker.taskQueue = w.worker.taskQueue := by
    rw [World.finish]
    split <;> rfl
  have change := touches.load (by rw [queue])
  have live' : ((w.touchPing task i (t.close i p') none evs).finish task (t.close i p')).heap task =
      some (t.close i p') := by
    rw [World.finish_heap]
    exact Function.update_self ..
  have serving := inv.serving held live
  have short : t.doneCount < t.totalCount := by
    rw [serving.total, serving.counted]
    have isOpen : p.status.terminal = false := by rw [waiting]; rfl
    exact_mod_cast Sequence.countP_lt_length _ entry isOpen
  have gone : task ∉ w.worker.taskQueue.toFinset :=
    mt List.mem_toFinset.mp (inv.not_queued held)
  have before : w.loadAt task = (t.totalCount - t.doneCount).toNat := by
    rw [World.loadAt, if_neg gone, if_pos held, World.remaining_of_live live, Nat.zero_add]
  have after : ((w.touchPing task i (t.close i p') none evs).finish task
      (t.close i p')).loadAt task ≤ (t.totalCount - (t.doneCount + 1)).toNat := by
    rw [World.loadAt, queue, if_neg gone, World.remaining_of_live live', Nat.zero_add]
    split
    · exact Nat.le_refl _
    · exact Nat.zero_le _
  omega

/-- So does an admission, and a refusal. -/
theorem WorkerInv.notified_load {now : UInt64} {outcomes : Nat → SendOutcome}
    (inv : WorkerInv none w) (byte : 0 < w.worker.notifyPipe)
    (run : TaskWorker.notifyEventHandler now outcomes w = .ok ((), w')) : w'.load < w.load := by
  obtain ⟨w₁, run₁, notification⟩ := notifyEventHandler_notification now outcomes inv byte
  cases run.symm.trans run₁
  have channel := notifyEventHandler_channel (congrArg (Except.map Prod.snd) run)
  have advances := notification.advances inv
  obtain ⟨task, rest, t, popped, live, fresh, touches, total⟩ : ∃ task rest t,
      Sequence.popTail w.worker.taskQueue = some (task, rest) ∧ w.heap task = some t ∧
        t.Fresh task ∧ w.Touches task w' ∧
          (task ∈ doingTasks w'.trace → ∃ t', w'.heap task = some t' ∧
            t'.totalCount = t.totalCount) := by
    cases notification with
    | refused task rest t popped live fresh =>
        obtain ⟨_, _, _, _, _, gone, _⟩ := inv.of_popped popped
        refine ⟨task, rest, t, popped, live, fresh, refuse_touches, fun held => ?_⟩
        exact absurd held (Finset.notMem_erase task _)
    | admitted task rest t w' popped live fresh room dispatches =>
        refine ⟨task, rest, t, popped, live, fresh, ?_⟩
        cases dispatches with
        | waiting t' _ touches _ live' _ total =>
            exact ⟨accept_touches.trans touches, fun _ => ⟨t', live', total⟩⟩
        | failed _ touches gone =>
            exact ⟨accept_touches.trans touches, fun held => absurd held gone⟩
  obtain ⟨apart, _, _, _, _, gone, _⟩ := inv.of_popped popped
  have split := Sequence.popTail_eq_some.mp popped
  have queue : w'.worker.taskQueue = rest := by
    have popped' := congrArg Channel.queue channel
    simp only [taskChannel, TaskWorker.channel, Channel.readByte, Channel.popTail, popped]
      at popped'
    exact popped'
  have sets : w'.worker.taskQueue.toFinset.erase task = w.worker.taskQueue.toFinset.erase task := by
    rw [queue, split, List.toFinset_append, Finset.erase_union_distrib]
    simp
  have change := touches.load sets
  have before : w.loadAt task = (t.totalCount - t.doneCount).toNat + 1 := by
    have queued : task ∈ w.worker.taskQueue.toFinset := by simp [split]
    rw [World.loadAt, if_pos queued, if_neg gone, World.remaining_of_live live, Nat.add_zero]
  have after : w'.loadAt task ≤ (t.totalCount - t.doneCount).toNat := by
    have left : task ∉ w'.worker.taskQueue.toFinset := by
      rw [queue]
      exact mt List.mem_toFinset.mp apart
    rw [World.loadAt, if_neg left, Nat.zero_add]
    split
    · rename_i held
      obtain ⟨t', live', total'⟩ := total held
      have counted := (advances.inv.serving held live').counted
      have uncounted := fresh.uncounted
      rw [World.remaining_of_live live']
      omega
    · exact Nat.zero_le _
  omega

/-- A handler that has something to do does some of it. -/
theorem WorkerInv.works_load (inv : WorkerInv none w) (offered : l.enabled w) (works : l.Works w)
    (served : l.serve w = .ok w') : w'.load < w.load := by
  cases l with
  | request | deleted => exact works.elim
  | notified now outcomes => exact inv.notified_load offered (World.of_map served)
  | expired task i =>
      have armed : (w.worker.base (task, i)).isSome = true := offered
      obtain ⟨held, t, p, live, entry, waiting⟩ := inv.waiting_of_armed armed
      have run := World.of_map served
      rw [fire_eq inv armed live entry, Except.ok.injEq, Prod.mk.injEq] at run
      obtain ⟨-, rfl⟩ := run
      exact inv.closes_load held live entry waiting (timeoutEvents_local _ _)
  | datagram timestamp seq index now =>
      obtain ⟨t, found, p, entry, waiting⟩ := works
      have reception := onReceive_reception inv timestamp seq index now
      rw [World.of_map served] at reception
      obtain ⟨task, route, live⟩ := Option.bind_eq_some_iff.mp found
      cases reception with
      | unknown absent =>
          rw [absent] at route
          cases route
      | overflow task' t' route' held live' beyond =>
          rw [route, Option.some.injEq] at route'
          rw [← route', live, Option.some.injEq] at live'
          have inside := (List.getElem?_eq_some_iff.mp entry).1
          have total := (inv.serving (route' ▸ held) live).total
          rw [← live', total] at beyond
          omega
      | duplicate task' t' p' route' held live' entry' isDone =>
          rw [route, Option.some.injEq] at route'
          rw [← route', live, Option.some.injEq] at live'
          rw [← live', entry, Option.some.injEq] at entry'
          rw [← entry', waiting] at isDone
          cases isDone
      | success task' t' p' _ held live' entry' waiting' =>
          exact inv.closes_load held live' entry' waiting' (receiveEvents_local _ _ _)

/-- A datagram that no ping waits for leaves the work as it is. -/
theorem Reception.stray_load {timestamp : UInt64} {index : UInt16} {now : UInt64}
    (reception : Reception w timestamp index now (.ok ((), w')))
    (stray : ¬w.Awaits timestamp index) : w'.load = w.load := by
  cases reception with
  | unknown => rfl
  | overflow => rfl
  | duplicate => rfl
  | success task t p route held live entry waiting =>
      refine absurd ⟨t, ?_, p, entry, waiting⟩ stray
      rw [World.found, route]
      exact live

end worker

/-! ## Requests -/

/-- The requests that have been received and not answered. -/
def pendingRequests : List ServerEvent → Finset RequestPtr
  | [] => ∅
  | .received req _ :: h => insert req (pendingRequests h)
  | .replied req _ _ :: h => (pendingRequests h).erase req
  | .deleted _ :: h | .impossible _ :: h => pendingRequests h

theorem mem_pendingRequests {req : RequestPtr} {h : List ServerEvent} :
    req ∈ pendingRequests h ↔ (outstanding req h).isSome = true := by
  induction h with
  | nil => exact iff_of_false (Finset.notMem_empty req) Bool.false_ne_true
  | cons e h ih =>
      cases e with
      | received req' task =>
          rw [pendingRequests, outstanding, Finset.mem_insert]
          by_cases same : req' = req
          · rw [if_pos same]
            exact iff_of_true (.inl same.symm) rfl
          · rw [if_neg same, ← ih]
            exact or_iff_right (Ne.symm same)
      | replied req' task reply =>
          rw [pendingRequests, outstanding, Finset.mem_erase]
          by_cases same : req' = req
          · rw [if_pos same]
            exact iff_of_false (fun both => both.1 same.symm) Bool.false_ne_true
          · rw [if_neg same, ← ih]
            exact and_iff_right (Ne.symm same)
      | deleted | impossible => exact ih

/-! ## The server -/

namespace ServerMove
variable {W : Nat}

/-- The handler has something to do. -/
def Works (s : Server W) : ServerMove W → Prop
  | worker i move => move.Works (s.focus i)
  | respond => True
  | request _ _ _ => False

/-- No request arrives, and replies stay in range. -/
def Closing (s : Server W) : ServerMove W → Prop
  | worker i move => move.InRange (s.focus i)
  | respond => True
  | request _ _ _ => False

end ServerMove

/-- What is left to do. -/
def Server.work {W : Nat} (s : Server W) : Nat :=
  ∑ i, (s.focus i).load + (pendingRequests s.history).card

section server
variable {W : Nat} {parse : List UInt8 → Option Value} {s s' : Server W} {i : Fin W}

theorem World.load_congr {w w' : World} (queue : w'.worker.taskQueue = w.worker.taskQueue)
    (trace : w'.trace = w.trace) (heap : ∀ a, w.Holds a → w'.heap a = w.heap a) :
    w'.load = w.load := by
  have same : ∀ a, w.Holds a → w'.remaining a = w.remaining a := fun a holds => by
    rw [World.remaining, World.remaining, heap a holds]
  rw [World.load, World.load, queue, trace]
  congr 1
  · exact Finset.sum_congr rfl fun a member =>
      congrArg (· + 1) (same a (.inl (List.mem_toFinset.mp member)))
  · exact Finset.sum_congr rfl fun a member => same a (.inr member)

/-- What one worker does is no work for the others. -/
theorem ServerInv.resume_work (inv : ServerInv s) {w' : World} (acts : (s.focus i).Acts w') :
    (s.resume i w').work + (s.focus i).load = s.work + w'.load := by
  have others : ∀ j, j ≠ i → ((s.resume i w').focus j).load = (s.focus j).load := by
    intro j other
    rw [Server.focus_resume_of_ne other]
    exact World.load_congr rfl rfl fun a holds => acts.heap a (inv.apart (Ne.symm other) holds)
  have change := Sequence.sum_change others
  rw [Server.focus_resume_self] at change
  simp only [Server.work]
  change _ + (pendingRequests s.history).card + _ = _
  omega

theorem ServerInv.answered_work (inv : ServerInv s) {task : TaskPtr} {req : RequestPtr}
    {rest : List TaskPtr} {reply : Reply}
    (popped : Sequence.popTail s.master.responseQueue = some (task, rest))
    (request : s.doingRequest task = some req) :
    (s.answer req task rest reply).work < s.work := by
  have member : task ∈ s.master.responseQueue := by simp [Sequence.popTail_eq_some.mp popped]
  have loads : ∀ j, ((s.answer req task rest reply).focus j).load = (s.focus j).load := by
    intro j
    refine World.load_congr rfl rfl fun a holds => Function.update_of_ne ?_ ..
    intro same
    subst same
    exact (inv.of_response member).2 j holds
  have pending : req ∈ pendingRequests s.history := by
    rw [mem_pendingRequests, (inv.ledger.pending req task).mpr request]
    rfl
  have fewer := Finset.card_erase_lt_of_mem pending
  rw [Server.work, Server.work, Finset.sum_congr rfl fun j _ => loads j]
  exact Nat.add_lt_add_left fewer _

/-- The work of the server goes down with every move that does some, and up with none. -/
theorem drains (workers : 0 < W) :
    (serverSystem parse W).Drains ServerMove.Closing ServerMove.Works ServerInv Server.work where
  keeps inv offered _ served := inv.of_moved (inv.moved workers offered served)
  spares {s l s'} inv offered closing idle served := by
    cases l with
    | request => exact closing.elim
    | respond => exact absurd trivial idle
    | worker i move =>
        have offered : (ServerMove.worker i move).enabled parse s := offered
        cases inv.moved workers offered served with
        | worker _ _ w' loop moved =>
            have balance := inv.resume_work (moved.advances (inv.worker i) loop).acts
            cases moved with
            | request | deleted => exact loop.elim
            | notified | expired => exact absurd trivial idle
            | datagram timestamp seq index now w' reception =>
                have same := reception.stray_load idle
                omega
  lowers {s l s'} inv offered closing works served := by
    cases l with
    | request => exact closing.elim
    | respond =>
        have offered : (ServerMove.respond : ServerMove W).enabled parse s := offered
        cases inv.moved workers offered served with
        | answered task req rest t response popped request => exact inv.answered_work popped request
    | worker i move =>
        obtain ⟨w', run, rfl⟩ := resume_of_serve served
        have loop : move.InLoop := offered.1
        have moved := (inv.worker i).moved offered.2 run
        have balance := inv.resume_work (moved.advances (inv.worker i) loop).acts
        have less := (inv.worker i).works_load offered.2 works run
        omega

/-- Unless nothing is left to happen, some handler has something to do. -/
theorem ServerInv.works (inv : ServerInv s) (workers : 0 < W) (busy : ¬s.Quiescent) :
    ∃ l s', (serverSystem parse W).enabled s l ∧ l.Closing s ∧ l.Works s ∧
      (serverSystem parse W).serve l s = .ok s' := by
  have served : ∀ l : ServerMove W, l.enabled parse s → l.InRange s → l.Closing s → l.Works s →
      ∃ l s', (serverSystem parse W).enabled s l ∧ l.Closing s ∧ l.Works s ∧
        (serverSystem parse W).serve l s = .ok s' := by
    intro l offered inRange closing works
    obtain ⟨s', served⟩ := inv.progress workers offered inRange
    exact ⟨l, s', offered, closing, works, served⟩
  by_cases bytes : 0 < s.master.notifyPipe
  · exact served .respond bytes trivial trivial trivial
  by_cases queued : ∃ i, 0 < (s.workers i).notifyPipe
  · obtain ⟨i, byte⟩ := queued
    exact served (.worker i (.notified 0 fun _ => ⟨false, 0, false⟩)) ⟨trivial, byte⟩ trivial
      trivial trivial
  by_cases armed : ∃ i event, ((s.workers i).base event).isSome = true
  · obtain ⟨i, ⟨task, k⟩, armed⟩ := armed
    exact served (.worker i (.expired task k)) ⟨trivial, armed⟩ trivial trivial trivial
  refine absurd ⟨by omega, fun i => ?_, fun i event => ?_⟩ busy
  · exact Nat.eq_zero_of_not_pos fun byte => queued ⟨i, byte⟩
  · cases timer : (s.workers i).base event with
    | none => rfl
    | some delay => exact absurd ⟨i, event, by rw [timer]; rfl⟩ armed

end server

/-- Without new requests the server comes to rest, in whatever order its handlers run: only so
many of them find something to do as there is work to be done, it never gets stuck before it is
at rest, and when it is, every request has been answered unless a Task without pings waits. -/
theorem server_drains {parse : List UInt8 → Option Value} {W : Nat} (workers : 0 < W)
    {s : Server W} (reached : (serverSystem parse W).Reachable (fun _ _ => True) s) :
    (∀ n s', (serverSystem parse W).Spends ServerMove.Closing ServerMove.Works n s s' →
      s'.work + n ≤ s.work) ∧
    (∀ s', (serverSystem parse W).Runs ServerMove.Closing s s' →
      (∀ l : ServerMove W, l.enabled parse s' → l.Closing s' → ¬l.Works s') →
      s'.Quiescent ∧ (s'.Answered ↔ ¬s'.Stranded)) ∧
    ∃ n s', (serverSystem parse W).Spends ServerMove.Closing ServerMove.Works n s s' ∧
      s'.Quiescent := by
  have inv := ServerInv.of_reachable workers reached
  refine ⟨fun n s' run => (drains workers).bounds run inv, fun s' run stuck => ?_,
    (drains workers).settles (fun inside => inside.works workers) inv⟩
  have inside := (drains workers).stays run inv
  have quiet : s'.Quiescent := by
    by_contra busy
    obtain ⟨l, _, offered, closing, works, _⟩ := @ServerInv.works W parse s' inside workers busy
    exact stuck l offered closing works
  exact ⟨quiet, inside.answered_iff quiet⟩

/-- One request is answered and the other has a response in the queue. -/
theorem server_drains_served :
    (∀ n s', (serverSystem Sample.parse 2).Spends ServerMove.Closing ServerMove.Works n
      Sample.served s' → s'.work + n ≤ Sample.served.work) ∧
    (∀ s', (serverSystem Sample.parse 2).Runs ServerMove.Closing Sample.served s' →
      (∀ l : ServerMove 2, l.enabled Sample.parse s' → l.Closing s' → ¬l.Works s') →
      s'.Quiescent ∧ (s'.Answered ↔ ¬s'.Stranded)) ∧
    ∃ n s', (serverSystem Sample.parse 2).Spends ServerMove.Closing ServerMove.Works n
      Sample.served s' ∧ s'.Quiescent :=
  server_drains (by decide) (Sample.served_reachable.mono fun _ _ _ => trivial)

end AsyncPing
