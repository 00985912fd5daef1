import Mathlib.Data.Prod.Basic

/-!
Machines whose moves may fault. A machine offers labels; a label that is
enabled either leads to a next state or ends in a fault, after which there is
nothing more to say. Runs are the finite sequences of moves that do not fault,
optionally restricted by a condition on each move and the state it starts from.
The programs that make up a move are state passing with faults.
-/
universe u v w

/-- State-passing programs that may fault. -/
abbrev Exec (φ σ α : Type u) := StateT σ (Except φ) α

namespace Exec
variable {φ σ α β : Type u}

theorem bind_of_ok {m : Exec φ σ α} {s s' : σ} {a : α} (h : m s = .ok (a, s'))
    (k : α → Exec φ σ β) : (m >>= k) s = k a s' := by
  simp only [bind, StateT.bind, h, Except.bind]

theorem get_bind (k : σ → Exec φ σ β) (s : σ) :
    ((get : Exec φ σ σ) >>= k) s = k s s := rfl

theorem modify_bind (f : σ → σ) (k : PUnit → Exec φ σ β) (s : σ) :
    ((modify f : Exec φ σ PUnit) >>= k) s = k ⟨⟩ (f s) := rfl

theorem pure_apply (a : α) (s : σ) : (pure a : Exec φ σ α) s = .ok (a, s) := rfl

theorem modify_apply (f : σ → σ) (s : σ) :
    (modify f : Exec φ σ PUnit) s = .ok (⟨⟩, f s) := rfl

end Exec

/-- A machine: when a label is on offer, and what serving it does. -/
structure Machine (σ : Type u) (ℓ : Type v) (φ : Type w) where
  start : σ → Prop
  enabled : σ → ℓ → Prop
  serve : ℓ → σ → Except φ σ

namespace Machine
variable {σ : Type u} {ℓ : Type v} {φ : Type w} (M : Machine σ ℓ φ)

/-- Runs from one state to another, every move of which satisfies `allowed`. -/
inductive Runs (allowed : σ → ℓ → Prop) : σ → σ → Prop
  | refl (s : σ) : Runs allowed s s
  | step {s t t' : σ} (l : ℓ) : Runs allowed s t → M.enabled t l → allowed t l →
      M.serve l t = .ok t' → Runs allowed s t'

def Reachable (allowed : σ → ℓ → Prop) (s : σ) : Prop :=
  ∃ s₀, M.start s₀ ∧ M.Runs allowed s₀ s

variable {M}
variable {allowed weaker : σ → ℓ → Prop}

theorem Runs.trans {s t r : σ} (first : M.Runs allowed s t) (second : M.Runs allowed t r) :
    M.Runs allowed s r := by
  induction second with
  | refl => exact first
  | step l _ offered ok served ih => exact .step l ih offered ok served

theorem Runs.mono {s t : σ} (run : M.Runs allowed s t)
    (weaken : ∀ r l, allowed r l → weaker r l) : M.Runs weaker s t := by
  induction run with
  | refl => exact .refl s
  | step l _ offered ok served ih => exact .step l ih offered (weaken _ _ ok) served

theorem Reachable.mono {s : σ} (h : M.Reachable allowed s)
    (weaken : ∀ r l, allowed r l → weaker r l) : M.Reachable weaker s :=
  let ⟨s₀, started, run⟩ := h
  ⟨s₀, started, run.mono weaken⟩

theorem Reachable.extend {s t : σ} (h : M.Reachable allowed s) (run : M.Runs allowed s t) :
    M.Reachable allowed t :=
  let ⟨s₀, started, before⟩ := h
  ⟨s₀, started, before.trans run⟩

/-- What one allowed move keeps, a whole run keeps. -/
theorem Runs.keeps {I : σ → Prop} {s t : σ} (run : M.Runs allowed s t) (init : I s)
    (move : ∀ r l r', I r → M.enabled r l → allowed r l → M.serve l r = .ok r' → I r') :
    I t := by
  induction run with
  | refl => exact init
  | step l _ offered ok served ih => exact move _ l _ ih offered ok served

/-- The induction rule for invariants of reachable states. -/
theorem Reachable.invariant {I : σ → Prop} {s : σ} (h : M.Reachable allowed s)
    (init : ∀ s₀, M.start s₀ → I s₀)
    (move : ∀ r l r', I r → M.enabled r l → allowed r l → M.serve l r = .ok r' → I r') :
    I s :=
  let ⟨s₀, started, run⟩ := h
  run.keeps (init s₀ started) move

/-- Where each move keeps or breaks `safe` as `good` says, the safe reachable
states are those of the runs whose moves are all good. -/
theorem Reachable.safe_iff {s : σ} (h : M.Reachable allowed s) (safe : σ → Prop)
    (good : σ → ℓ → Prop) (init : ∀ s₀, M.start s₀ → safe s₀)
    (move : ∀ r l r', M.Reachable allowed r → M.enabled r l → allowed r l →
      M.serve l r = .ok r' → (safe r' ↔ safe r ∧ good r l)) :
    safe s ↔ M.Reachable (fun r l => allowed r l ∧ good r l) s := by
  constructor
  · intro isSafe
    obtain ⟨s₀, started, run⟩ := h
    refine ⟨s₀, started, ?_⟩
    induction run with
    | refl => exact .refl s₀
    | step l before offered ok served ih =>
        obtain ⟨earlier, good⟩ :=
          (move _ l _ ⟨s₀, started, before⟩ offered ok served).mp isSafe
        exact .step l (ih earlier) offered ⟨ok, good⟩ served
  · rintro ⟨s₀, started, run⟩
    clear h
    induction run with
    | refl => exact init s₀ started
    | step l before offered ok served ih =>
        have reached : M.Runs allowed s₀ _ := before.mono fun _ _ both => both.1
        exact (move _ l _ ⟨s₀, started, reached⟩ offered ok.1 served).mpr ⟨ih, ok.2⟩

/-- Serve a list of labels in order, refusing one that is not on offer or not
allowed. Concrete runs are computed with it. -/
def follow (M : Machine σ ℓ φ) (allowed : σ → ℓ → Prop)
    [∀ s l, Decidable (M.enabled s l)] [∀ s l, Decidable (allowed s l)] :
    σ → List ℓ → Option σ
  | s, [] => some s
  | s, l :: ls =>
      if M.enabled s l ∧ allowed s l then
        match M.serve l s with
        | .ok s' => follow M allowed s' ls
        | .error _ => none
      else none

theorem runs_of_follow [∀ s l, Decidable (M.enabled s l)] [∀ s l, Decidable (allowed s l)]
    (ls : List ℓ) (s t : σ) (h : M.follow allowed s ls = some t) :
    M.Runs allowed s t := by
  induction ls generalizing s with
  | nil =>
      rw [follow, Option.some.injEq] at h
      exact h ▸ .refl s
  | cons l ls ih =>
      rw [follow] at h
      split at h
      · rename_i offered
        split at h
        · rename_i s' served
          exact (Runs.step l (.refl s) offered.1 offered.2 served).trans (ih s' h)
        · cases h
      · cases h

/-- A computed run ends in a reachable state. -/
theorem reachable_of_follow [∀ s l, Decidable (M.enabled s l)] [∀ s l, Decidable (allowed s l)]
    {s : σ} (started : M.start s) (ls : List ℓ) (followed : (M.follow allowed s ls).isSome) :
    M.Reachable allowed ((M.follow allowed s ls).get followed) :=
  ⟨s, started, runs_of_follow ls s _ (Option.some_get followed).symm⟩

end Machine
