import AsyncPing.Library.Machine
import Mathlib.Data.List.Basic

/-!
Runs of several agents. When moves of different agents commute, up to an equivalence that the
moves cannot tell, only the order of each agent's own moves matters: every other interleaving
of them can be run as well, and leads to an equivalent state.
-/
universe u v w x

namespace Machine
variable {σ : Type u} {ℓ : Type v} {φ : Type w} {ι : Type x} {M : Machine σ ℓ φ}

/-- The moves that have these names. -/
def relabel {κ : Type x} (M : Machine σ ℓ φ) (f : κ → ℓ) : Machine σ κ φ where
  start := M.start
  enabled s k := M.enabled s (f k)
  serve k := M.serve (f k)

/-- The machine makes these moves, one after the other. -/
inductive Makes (M : Machine σ ℓ φ) : σ → List ℓ → σ → Prop
  | nil (s : σ) : Makes M s [] s
  | cons {s s' t : σ} {l : ℓ} {ls : List ℓ} (offered : M.enabled s l)
      (served : M.serve l s = .ok s') (rest : Makes M s' ls t) : Makes M s (l :: ls) t

/-- Moves of different agents commute up to `alike`. -/
structure Independent [DecidableEq ι] (M : Machine σ ℓ φ) (agent : ℓ → ι) (inv : σ → Prop)
    (alike : σ → σ → Prop) : Prop where
  keeps : ∀ {s l s'}, inv s → M.enabled s l → M.serve l s = .ok s' → inv s'
  refl : ∀ s, alike s s
  trans : ∀ {r s t}, alike r s → alike s t → alike r t
  respects : ∀ {s t l s'}, inv s → alike s t → M.enabled s l → M.serve l s = .ok s' →
    M.enabled t l ∧ ∃ t', M.serve l t = .ok t' ∧ alike s' t'
  commutes : ∀ {s l m s₁ s₂}, inv s → agent l ≠ agent m → M.enabled s l →
    M.serve l s = .ok s₁ → M.enabled s₁ m → M.serve m s₁ = .ok s₂ →
    M.enabled s m ∧ ∃ t₁, M.serve m s = .ok t₁ ∧
      M.enabled t₁ l ∧ ∃ t₂, M.serve l t₁ = .ok t₂ ∧ alike s₂ t₂

namespace Independent
variable [DecidableEq ι] {agent : ℓ → ι} {inv : σ → Prop} {alike : σ → σ → Prop} {s t s' : σ}
  {ls ls' before after : List ℓ} {m : ℓ}

/-- Equivalent states have the same runs. -/
theorem respects_makes (independent : M.Independent agent inv alike) (start : inv s)
    (same : alike s t) (run : M.Makes s ls s') : ∃ t', M.Makes t ls t' ∧ alike s' t' := by
  induction run generalizing t with
  | nil => exact ⟨t, .nil t, same⟩
  | cons offered served _ ih =>
      obtain ⟨offered', t', served', same'⟩ := independent.respects start same offered served
      obtain ⟨t'', rest, last⟩ := ih (independent.keeps start offered served) same'
      exact ⟨t'', .cons offered' served' rest, last⟩

/-- A move may be made before the moves of other agents. -/
theorem sooner (independent : M.Independent agent inv alike) (start : inv s)
    (others : ∀ l ∈ before, agent l ≠ agent m)
    (run : M.Makes s (before ++ m :: after) s') :
    ∃ t', M.Makes s (m :: (before ++ after)) t' ∧ alike s' t' := by
  induction before generalizing s with
  | nil => exact ⟨s', run, independent.refl s'⟩
  | cons l before ih =>
      cases run with
      | cons offered served rest =>
          have inside := independent.keeps start offered served
          obtain ⟨t', moved, same⟩ :=
            ih inside (fun k member => others k (List.mem_cons_of_mem l member)) rest
          cases moved with
          | cons offered' served' rest' =>
              -- the two moves at the front change places
              obtain ⟨first, t₁, served₁, second, t₂, served₂, same₂⟩ :=
                independent.commutes start (others l List.mem_cons_self) offered served offered'
                  served'
              have inside' := independent.keeps inside offered' served'
              obtain ⟨t'', rest'', last⟩ := independent.respects_makes inside' same₂ rest'
              exact ⟨t'', .cons first served₁ (.cons second served₂ rest''),
                independent.trans same last⟩

/-- Only the order of each agent's own moves matters. -/
theorem interleave (independent : M.Independent agent inv alike) (start : inv s)
    (same : ∀ i, ls.filter (fun l => agent l = i) = ls'.filter fun l => agent l = i)
    (run : M.Makes s ls s') : ∃ t', M.Makes s ls' t' ∧ alike s' t' := by
  induction ls' generalizing s ls s' with
  | nil =>
      cases ls with
      | nil => exact ⟨s', run, independent.refl s'⟩
      | cons l ls =>
          have none := same (agent l)
          rw [List.filter_cons, if_pos (decide_eq_true rfl), List.filter_nil] at none
          cases none
  | cons m ls' ih =>
      -- the first move in the new order is the first of its agent in the old
      have own := same (agent m)
      rw [List.filter_cons, if_pos (decide_eq_true rfl)] at own
      obtain ⟨before, after, rfl, others, _, rest⟩ := List.filter_eq_cons_iff.mp own
      have apart : ∀ l ∈ before, agent l ≠ agent m := fun l member => by
        simpa using others l member
      obtain ⟨t', moved, first⟩ := independent.sooner start apart run
      cases moved with
      | cons offered served onward =>
          have left : ∀ i, (before ++ after).filter (fun l => agent l = i) =
              ls'.filter fun l => agent l = i := by
            intro i
            have each := same i
            rw [List.filter_append, List.filter_cons, List.filter_cons] at each
            rw [List.filter_append]
            by_cases mine : agent m = i
            · have none : before.filter (fun l => agent l = i) = [] :=
                List.filter_eq_nil_iff.mpr fun l member => by simpa [← mine] using apart l member
              rw [none] at each ⊢
              simpa [mine] using each
            · simpa [mine] using each
          obtain ⟨t'', rest', last⟩ := ih (independent.keeps start offered served) left onward
          exact ⟨t'', .cons offered served rest', independent.trans first last⟩

end Independent
end Machine
