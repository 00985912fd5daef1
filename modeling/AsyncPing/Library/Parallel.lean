import AsyncPing.Library.Machine

/-!
Two runs side by side. A program that is run from two related states either goes through in
both, with the same result and related states behind it, or does not go through in the first.
-/
universe u

namespace Exec
variable {φ σ α β : Type u} {R : σ → σ → Prop} {Q : α → Prop} {Q' : β → Prop} {s t : σ}

/-- Whenever `m` runs through from `s`, so does `n` from `t`, with the same result. -/
def Parallel (R : σ → σ → Prop) (Q : α → Prop) (m n : Exec φ σ α) (s t : σ) : Prop :=
  ∀ a s', m s = .ok (a, s') → Q a ∧ ∃ t', n t = .ok (a, t') ∧ R s' t'

namespace Parallel

theorem pure {a : α} (holds : Q a) (related : R s t) :
    Parallel R Q (pure a : Exec φ σ α) (pure a) s t := by
  intro b s' run
  cases run
  exact ⟨holds, t, rfl, related⟩

theorem throw (fault : φ) (n : Exec φ σ α) : Parallel R Q (throw fault) n s t := by
  intro b s' run
  cases run

/-- A program that first changes the state; the relation need hold only behind the rest. -/
theorem modify_bind {f g : σ → σ} {k l : PUnit → Exec φ σ β}
    (rest : Parallel R Q' (k ⟨⟩) (l ⟨⟩) (f s) (g t)) :
    Parallel R Q' ((modify f : Exec φ σ PUnit) >>= k) (modify g >>= l) s t := rest

theorem modify {f g : σ → σ} (related : R (f s) (g t)) :
    Parallel R (fun _ => True) (modify f : Exec φ σ PUnit) (modify g) s t := by
  intro b s' run
  cases run
  exact ⟨trivial, g t, rfl, related⟩

theorem bind {m n : Exec φ σ α} {k l : α → Exec φ σ β} (first : Parallel R Q m n s t)
    (rest : ∀ a s' t', Q a → R s' t' → Parallel R Q' (k a) (l a) s' t') :
    Parallel R Q' (m >>= k) (n >>= l) s t := by
  intro b s'' run
  cases result : m s with
  | error fault =>
      simp only [Bind.bind, StateT.bind, result, Except.bind] at run
      cases run
  | ok outcome =>
      rw [bind_of_ok result] at run
      obtain ⟨holds, t', result', related⟩ := first _ _ result
      rw [bind_of_ok result']
      exact rest _ _ _ holds related _ _ run

/-- A program that first looks at the state. -/
theorem get_bind {k l : σ → Exec φ σ β} (rest : Parallel R Q' (k s) (l t) s t) :
    Parallel R Q' ((get : Exec φ σ σ) >>= k) (get >>= l) s t := rest

end Parallel
end Exec
