import AsyncPing.Core.Channel

/-!
No wake-up is lost and none is spurious. A value in the queue is matched by a
byte in the pipe, by a producer that has still to write its byte, or by a
consumer that has read the byte and not yet popped; this holds whatever the
order of the steps.
-/
namespace AsyncPing

namespace Channel
variable {T : Type} {c : Channel T}

theorem popTail_none : c.popTail.1 = none ↔ c.queue = [] := by
  rw [← Sequence.popTail_eq_none, popTail]
  cases Sequence.popTail c.queue with
  | none => simp
  | some result => simp

theorem popTail_length (some : c.queue ≠ []) :
    c.popTail.2.queue.length + 1 = c.queue.length := by
  cases popped : Sequence.popTail c.queue with
  | none => exact absurd (Sequence.popTail_eq_none.mp popped) some
  | some result =>
      obtain ⟨ret, rest⟩ := result
      have length := congrArg List.length (Sequence.popTail_eq_some.mp popped)
      rw [List.length_append, List.length_singleton] at length
      rw [length, popTail, popped]

theorem popTail_pipe (c : Channel T) : c.popTail.2.pipe = c.pipe := by
  rw [popTail]
  split <;> rfl

end Channel

namespace Traffic
variable {Thr T : Type} {s : Traffic Thr T}

/-- Every value in the queue has its byte, or somebody still has to write it or
has already read it. -/
structure Balanced (s : Traffic Thr T) : Prop where
  length : s.channel.queue.length = s.channel.pipe + s.producing.card + s.hasRead.toNat
  popped : none ∉ s.popped

theorem Balanced.of_quiet {c : Channel T} {popped : List (Option T)}
    (length : c.queue.length = c.pipe) (all : none ∉ popped) :
    (Traffic.quiet c popped : Traffic Thr T).Balanced :=
  ⟨length, all⟩

/-- A consumer that has read finds a value. -/
theorem Balanced.nonempty (balanced : s.Balanced) (hasRead : s.hasRead = true) :
    s.channel.queue ≠ [] := by
  have length := balanced.length
  rw [hasRead] at length
  refine List.ne_nil_of_length_pos ?_
  simp only [Bool.toNat_true] at length
  omega

theorem Balanced.step [DecidableEq Thr] {l : ChannelStep Thr T} (balanced : s.Balanced)
    (offered : l.enabled s) : (l.serve s).Balanced := by
  have length := balanced.length
  cases l with
  | push thread data =>
      have apart : thread ∉ s.producing := offered
      refine ⟨?_, balanced.popped⟩
      simp only [ChannelStep.serve, Channel.pushHead, List.length_cons,
        Finset.card_insert_of_notMem apart]
      omega
  | write thread =>
      have held : thread ∈ s.producing := offered
      have positive := Finset.card_pos.mpr ⟨thread, held⟩
      refine ⟨?_, balanced.popped⟩
      simp only [ChannelStep.serve, Channel.notify, Finset.card_erase_of_mem held]
      omega
  | read =>
      obtain ⟨idle, byte⟩ : s.hasRead = false ∧ 0 < s.channel.pipe := offered
      rw [idle] at length
      refine ⟨?_, balanced.popped⟩
      simp only [ChannelStep.serve, Channel.readByte, Bool.toNat_true, Bool.toNat_false] at length ⊢
      omega
  | pop =>
      have hasRead : s.hasRead = true := offered
      have some := balanced.nonempty hasRead
      have shorter := Channel.popTail_length some
      have pipe := Channel.popTail_pipe s.channel
      rw [hasRead] at length
      refine ⟨?_, ?_⟩
      · simp only [ChannelStep.serve, Bool.toNat_true, Bool.toNat_false] at length ⊢
        omega
      · simp only [ChannelStep.serve, List.mem_cons, not_or]
        refine ⟨?_, balanced.popped⟩
        intro nothing
        exact some (Channel.popTail_none.mp nothing.symm)

theorem Balanced.of_reachable [DecidableEq Thr]
    {allowed : Traffic Thr T → ChannelStep Thr T → Prop}
    (reached : (channelSystem Thr T).Reachable allowed s) : s.Balanced := by
  apply reached.invariant
  · intro s₀ started
    rw [started]
    exact .of_quiet rfl List.not_mem_nil
  · intro r l r' balanced offered _ served
    cases served
    exact balanced.step offered

end Traffic

/-! ## Handlers on a channel

A handler that is not interrupted pushes and writes, or reads and pops, or does neither. -/

namespace Channel
variable {T : Type} {c : Channel T}

/-- Steps lead from the empty channel here, and nobody is between two of them. -/
def Used (c : Channel T) : Prop :=
  ∃ popped, (channelSystem Unit T).Reachable (fun _ _ => True) (.quiet c popped)

/-- A byte for each value, so that who reads a byte pops a value. -/
structure Awake (c : Channel T) : Prop where
  length : c.queue.length = c.pipe
  finds : 0 < c.pipe → c.readByte.popTail.1 ≠ none

namespace Used

theorem empty : (⟨[], 0⟩ : Channel T).Used :=
  ⟨[], _, rfl, .refl _⟩

theorem submit (used : c.Used) (data : T) : (c.pushHead data).notify.Used := by
  obtain ⟨popped, reached⟩ := used
  have pushed : (channelSystem Unit T).Runs (fun _ _ => True) (.quiet c popped)
      ⟨c.pushHead data, insert () ∅, false, popped⟩ :=
    .step (.push () data) (.refl _) (Finset.notMem_empty ()) trivial rfl
  refine ⟨popped, reached.extend ?_⟩
  exact .step (.write ()) pushed (Finset.mem_insert_self () ∅) trivial rfl

theorem take (used : c.Used) (byte : 0 < c.pipe) : c.readByte.popTail.2.Used := by
  obtain ⟨popped, reached⟩ := used
  have hasRead : (channelSystem Unit T).Runs (fun _ _ => True) (.quiet c popped)
      ⟨c.readByte, ∅, true, popped⟩ :=
    .step .read (.refl _) ⟨rfl, byte⟩ trivial rfl
  exact ⟨_, reached.extend (.step .pop hasRead rfl trivial rfl)⟩

theorem awake (used : c.Used) : c.Awake := by
  obtain ⟨popped, reached⟩ := used
  have balanced := Traffic.Balanced.of_reachable reached
  have length : c.queue.length = c.pipe := balanced.length
  refine ⟨length, fun byte nothing => ?_⟩
  have queue : c.readByte.queue = [] := popTail_none.mp nothing
  change c.queue = [] at queue
  rw [queue] at length
  exact absurd length (Nat.ne_of_lt byte)

end Used
end Channel

theorem no_lost_wakeup {Thr T : Type} [DecidableEq Thr]
    {allowed : Traffic Thr T → ChannelStep Thr T → Prop} {s : Traffic Thr T}
    (reached : (channelSystem Thr T).Reachable allowed s) :
    s.channel.queue.length = s.channel.pipe + s.producing.card + s.hasRead.toNat ∧
      (s.hasRead = true → s.channel.popTail.1 ≠ none) ∧ none ∉ s.popped ∧
      (s.channel.pipe = 0 → s.producing = ∅ → s.hasRead = false → s.channel.queue = []) := by
  have balanced := Traffic.Balanced.of_reachable reached
  refine ⟨balanced.length, ?_, balanced.popped, ?_⟩
  · intro hasRead nothing
    exact balanced.nonempty hasRead (Channel.popTail_none.mp nothing)
  · intro pipe producing hasRead
    have length := balanced.length
    rw [pipe, producing, hasRead] at length
    exact List.length_eq_zero_iff.mp length

section sample

instance (s : Traffic Nat Nat) (l : ChannelStep Nat Nat) :
    Decidable ((channelSystem Nat Nat).enabled s l) :=
  match l with
  | .push thread _ => inferInstanceAs (Decidable (thread ∉ s.producing))
  | .write thread => inferInstanceAs (Decidable (thread ∈ s.producing))
  | .read => inferInstanceAs (Decidable (s.hasRead = false ∧ 0 < s.channel.pipe))
  | .pop => inferInstanceAs (Decidable (s.hasRead = true))

/-- Threads 1 and 2 push 10 and 20; thread 2 writes first, and the consumer has
read its byte. -/
def Sample.traffic : Traffic Nat Nat :=
  ((channelSystem Nat Nat).follow (fun _ _ => True) (.quiet ⟨[], 0⟩ [])
    [.push 1 10, .push 2 20, .write 2, .read]).get rfl

theorem no_lost_wakeup_two_producers :
    Sample.traffic.channel.queue.length =
        Sample.traffic.channel.pipe + Sample.traffic.producing.card +
          Sample.traffic.hasRead.toNat ∧
      (Sample.traffic.hasRead = true → Sample.traffic.channel.popTail.1 ≠ none) ∧
      none ∉ Sample.traffic.popped ∧
      (Sample.traffic.channel.pipe = 0 → Sample.traffic.producing = ∅ →
        Sample.traffic.hasRead = false → Sample.traffic.channel.queue = []) :=
  no_lost_wakeup (Machine.reachable_of_follow rfl _ rfl)

end sample

end AsyncPing
