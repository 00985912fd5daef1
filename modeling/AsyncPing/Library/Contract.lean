import AsyncPing.Library.Machine

/-!
Contracts of state-passing programs: from this state the program ends with a result
and a state as promised, or in a fault that is accounted for. One rule for each way
to put programs together.
-/
universe u

namespace Exec
variable {φ σ α β : Type u} {fault fault' : φ → Prop} {s s' : σ}

def Meets (fault : φ → Prop) (m : Exec φ σ α) (s : σ) (post : α → σ → Prop) : Prop :=
  match m s with
  | .ok (a, s') => post a s'
  | .error e => fault e

section rules
variable {m : Exec φ σ α} {k : α → Exec φ σ β} {post post' : α → σ → Prop}
  {goal : β → σ → Prop}

theorem Meets.of_run {a : α} (run : m s = .ok (a, s')) (ends : post a s') :
    Meets fault m s post := by
  rw [Meets, run]
  exact ends

/-- A program that accounts for no fault runs through. -/
theorem Meets.run (meets : Meets (fun _ => False) m s post) :
    ∃ a s', m s = .ok (a, s') ∧ post a s' := by
  cases result : m s with
  | error e =>
      rw [Meets, result] at meets
      exact meets.elim
  | ok outcome =>
      rw [Meets, result] at meets
      exact ⟨outcome.1, outcome.2, rfl, meets⟩

theorem Meets.bind (first : Meets fault m s post)
    (rest : ∀ a s', post a s' → Meets fault (k a) s' goal) : Meets fault (m >>= k) s goal := by
  cases result : m s with
  | error e =>
      rw [Meets, result] at first
      simp only [Meets, Bind.bind, StateT.bind, result, Except.bind]
      exact first
  | ok outcome =>
      rw [Meets, result] at first
      rw [Meets, bind_of_ok result]
      exact rest outcome.1 outcome.2 first

theorem Meets.bind_of_run {a : α} (run : m s = .ok (a, s')) (rest : Meets fault (k a) s' goal) :
    Meets fault (m >>= k) s goal := by
  rw [Meets, bind_of_ok run]
  exact rest

theorem Meets.mono (meets : Meets fault m s post) (weaken : ∀ a s', post a s' → post' a s') :
    Meets fault m s post' := by
  cases result : m s with
  | error e =>
      rw [Meets, result] at meets ⊢
      exact meets
  | ok outcome =>
      rw [Meets, result] at meets ⊢
      exact weaken _ _ meets

/-- What is shown of the same run with and without regard to faults holds together. -/
theorem Meets.both (meets : Meets fault m s post) (also : Meets (fun _ => True) m s post') :
    Meets fault m s fun a s' => post a s' ∧ post' a s' := by
  cases result : m s with
  | error e =>
      rw [Meets, result] at meets ⊢
      exact meets
  | ok outcome =>
      rw [Meets, result] at meets also ⊢
      exact ⟨meets, also⟩

theorem Meets.mono_fault (meets : Meets fault m s post) (weaken : ∀ e, fault e → fault' e) :
    Meets fault' m s post := by
  cases result : m s with
  | error e =>
      rw [Meets, result] at meets ⊢
      exact weaken e meets
  | ok outcome =>
      rw [Meets, result] at meets ⊢
      exact meets

theorem meets_pure (a : α) : Meets fault (pure a : Exec φ σ α) s post ↔ post a s := Iff.rfl

theorem meets_throw (e : φ) : Meets fault (throw e : Exec φ σ α) s post ↔ fault e := Iff.rfl

theorem meets_throw_bind (e : φ) (k : α → Exec φ σ β) :
    Meets fault ((throw e : Exec φ σ α) >>= k) s goal ↔ fault e := Iff.rfl

theorem meets_get_bind (k : σ → Exec φ σ β) :
    Meets fault ((get : Exec φ σ σ) >>= k) s goal ↔ Meets fault (k s) s goal := Iff.rfl

theorem meets_modify_bind (f : σ → σ) (k : PUnit → Exec φ σ β) :
    Meets fault ((modify f : Exec φ σ PUnit) >>= k) s goal ↔ Meets fault (k ⟨⟩) (f s) goal :=
  Iff.rfl

end rules
end Exec
