import Mathlib.Data.Int.CardIntervalMod

/-!
Dealing in turn. The values of a list, last one first, go to so many hands, beginning with
the hand `first`; no hand then gets ahead of another by more than one value.
-/
universe u

namespace Sequence
variable {α : Type u} {first hands i j : Nat}

/-- What hand `i` gets, newest first. -/
def dealt (first hands i : Nat) : List α → List α
  | [] => []
  | a :: l =>
      if (first + l.length) % hands = i then a :: dealt first hands i l else dealt first hands i l

theorem length_dealt (l : List α) :
    (dealt first hands i l).length = l.length.count fun k => (first + k) % hands = i := by
  induction l with
  | nil => rfl
  | cons a l ih =>
      rw [dealt, List.length_cons, Nat.count_succ]
      split
      · rw [List.length_cons, ih]
      · rw [ih, Nat.add_zero]

/-- How many that are, in closed form. -/
theorem length_dealt_eq (l : List α) (start : first < hands) (isHand : i < hands) :
    (dealt first hands i l).length =
      l.length / hands + if (i + (hands - first)) % hands < l.length % hands then 1 else 0 := by
  have turn : (fun k => (first + k) % hands = i) =
      fun k => k ≡ i + (hands - first) [MOD hands] := by
    funext k
    have full : first + (i + (hands - first)) = i + hands := by omega
    have shift : k ≡ i + (hands - first) [MOD hands] ↔ first + k ≡ i + hands [MOD hands] :=
      full ▸ ⟨Nat.ModEq.add_left first, Nat.ModEq.add_left_cancel' first⟩
    rw [shift, Nat.ModEq, Nat.add_mod_right, Nat.mod_eq_of_lt isHand]
  rw [length_dealt, ← Nat.count_modEq_card l.length (by omega : 0 < hands)]
  simp only [turn]

theorem dealt_even (l : List α) (start : first < hands) (isHand : i < hands) (isHand' : j < hands) :
    (dealt first hands i l).length ≤ (dealt first hands j l).length + 1 := by
  rw [length_dealt_eq l start isHand, length_dealt_eq l start isHand']
  split <;> split <;> omega

end Sequence
