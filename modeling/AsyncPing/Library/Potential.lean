import AsyncPing.Library.Machine

/-!
A potential of a machine. Some of its moves count: each of them lowers the potential, and no
other move raises it. A run then makes only so many moves that count, and where one of them
can be made from every state that is not settled, every state settles.
-/
universe u v w

namespace Machine
variable {σ : Type u} {ℓ : Type v} {φ : Type w} {M : Machine σ ℓ φ}
  {allowed counts : σ → ℓ → Prop} {inv settled : σ → Prop} {potential : σ → Nat}

/-- A run of which so many moves count. -/
inductive Spends (M : Machine σ ℓ φ) (allowed counts : σ → ℓ → Prop) : Nat → σ → σ → Prop
  | refl (s : σ) : Spends M allowed counts 0 s s
  | idle {n : Nat} {s t t' : σ} (l : ℓ) (before : Spends M allowed counts n s t)
      (offered : M.enabled t l) (ok : allowed t l) (free : ¬counts t l)
      (served : M.serve l t = .ok t') : Spends M allowed counts n s t'
  | spend {n : Nat} {s t t' : σ} (l : ℓ) (before : Spends M allowed counts n s t)
      (offered : M.enabled t l) (ok : allowed t l) (cost : counts t l)
      (served : M.serve l t = .ok t') : Spends M allowed counts (n + 1) s t'

theorem Spends.runs {n : Nat} {s t : σ} (run : M.Spends allowed counts n s t) :
    M.Runs allowed s t := by
  induction run with
  | refl => exact .refl _
  | idle l _ offered ok _ served ih | spend l _ offered ok _ served ih =>
      exact .step l ih offered ok served

/-- What one move does to the invariant and to the potential. -/
structure Drains (M : Machine σ ℓ φ) (allowed counts : σ → ℓ → Prop) (inv : σ → Prop)
    (potential : σ → Nat) : Prop where
  keeps : ∀ {s l s'}, inv s → M.enabled s l → allowed s l → M.serve l s = .ok s' → inv s'
  spares : ∀ {s l s'}, inv s → M.enabled s l → allowed s l → ¬counts s l →
    M.serve l s = .ok s' → potential s' ≤ potential s
  lowers : ∀ {s l s'}, inv s → M.enabled s l → allowed s l → counts s l →
    M.serve l s = .ok s' → potential s' < potential s

namespace Drains

theorem stays (drains : M.Drains allowed counts inv potential) {s t : σ}
    (run : M.Runs allowed s t) (start : inv s) : inv t :=
  run.keeps start fun _ _ _ before offered ok served => drains.keeps before offered ok served

/-- The moves that count are paid for out of the potential. -/
theorem bounds (drains : M.Drains allowed counts inv potential) {n : Nat} {s t : σ}
    (run : M.Spends allowed counts n s t) (start : inv s) : potential t + n ≤ potential s := by
  induction run with
  | refl => exact Nat.le_refl _
  | idle l before offered ok free served ih =>
      have inside := drains.stays before.runs start
      have spared := drains.spares inside offered ok free served
      have paid := ih start
      omega
  | spend l before offered ok cost served ih =>
      have inside := drains.stays before.runs start
      have lowered := drains.lowers inside offered ok cost served
      have paid := ih start
      omega

/-- From the end of a run on, the potential that is left pays for the rest. -/
theorem settles_from (drains : M.Drains allowed counts inv potential)
    (moves : ∀ {s}, inv s → ¬settled s →
      ∃ l s', M.enabled s l ∧ allowed s l ∧ counts s l ∧ M.serve l s = .ok s')
    {n : Nat} {s t : σ} (start : inv s) (run : M.Spends allowed counts n s t) :
    ∃ n t, M.Spends allowed counts n s t ∧ settled t := by
  induction left : potential t using Nat.strongRecOn generalizing n t with
  | ind size ih =>
      by_cases done : settled t
      · exact ⟨n, t, run, done⟩
      · have inside := drains.stays run.runs start
        obtain ⟨l, t', offered, ok, cost, served⟩ := moves inside done
        have lowered := drains.lowers inside offered ok cost served
        exact ih (potential t') (left ▸ lowered) (.spend l run offered ok cost served) rfl

theorem settles (drains : M.Drains allowed counts inv potential)
    (moves : ∀ {s}, inv s → ¬settled s →
      ∃ l s', M.enabled s l ∧ allowed s l ∧ counts s l ∧ M.serve l s = .ok s')
    {s : σ} (start : inv s) : ∃ n t, M.Spends allowed counts n s t ∧ settled t :=
  drains.settles_from moves start (.refl s)

end Drains
end Machine
