import Mathlib.Algebra.BigOperators.Group.Finset.Basic
import Mathlib.Algebra.Order.BigOperators.Group.Finset
import Mathlib.Data.List.Basic
import Mathlib.Data.List.Induction
import Mathlib.Tactic.Push

/-!
Two uses of lists, and counts kept by several holders. As a queue a list is read
head first: values enter at the head and leave at the tail. As a table of slots a
list is counted: closing one slot that was open raises the number of closed slots
by exactly one, and the count reaches the length exactly when no slot is open.
Among several holders the total changes by what one of them gains or loses.
-/
universe u

namespace Sequence
variable {α : Type u}

/-- Take the oldest value off the tail. -/
def popTail : List α → Option (α × List α)
  | [] => none
  | [a] => some (a, [])
  | a :: b :: q => (popTail (b :: q)).map fun r => (r.1, a :: r.2)

theorem popTail_append (q : List α) (a : α) : popTail (q ++ [a]) = some (a, q) := by
  induction q with
  | nil => rfl
  | cons b q ih =>
      cases q with
      | nil => rfl
      | cons c q =>
          simp only [List.cons_append, popTail] at ih ⊢
          rw [ih]
          rfl

theorem popTail_eq_none {q : List α} : popTail q = none ↔ q = [] := by
  constructor
  · intro h
    induction q using List.reverseRecOn with
    | nil => rfl
    | append_singleton q a _ => rw [popTail_append] at h; cases h
  · intro same
    subst same
    rfl

theorem popTail_eq_some {q r : List α} {a : α} :
    popTail q = some (a, r) ↔ q = r ++ [a] := by
  constructor
  · intro h
    induction q using List.reverseRecOn with
    | nil => cases h
    | append_singleton q b _ =>
        rw [popTail_append] at h
        cases h
        rfl
  · intro same
    subst same
    exact popTail_append r a

section slots
variable (closed : α → Bool) {slots : List α} {i : Nat} {old new : α}

theorem countP_set_closed (slot : slots[i]? = some old) (wasOpen : closed old = false)
    (isClosed : closed new = true) :
    (slots.set i new).countP closed = slots.countP closed + 1 := by
  obtain ⟨bound, rfl⟩ := List.getElem?_eq_some_iff.mp slot
  rw [List.countP_set bound]
  simp [wasOpen, isClosed]

theorem countP_set_same (slot : slots[i]? = some old) (same : closed new = closed old) :
    (slots.set i new).countP closed = slots.countP closed := by
  obtain ⟨bound, rfl⟩ := List.getElem?_eq_some_iff.mp slot
  rw [List.countP_set bound, same]
  cases held : closed slots[i] with
  | false => simp
  | true =>
      have counted : 0 < slots.countP closed :=
        List.countP_pos_iff.mpr ⟨slots[i], List.getElem_mem bound, held⟩
      simp only [if_true]
      omega

theorem countP_lt_length (slot : slots[i]? = some old) (isOpen : closed old = false) :
    slots.countP closed < slots.length := by
  refine Nat.lt_of_le_of_ne List.countP_le_length fun full => ?_
  have := List.countP_eq_length.mp full old (List.mem_of_getElem? slot)
  simp [isOpen] at this

theorem exists_open (short : slots.countP closed < slots.length) :
    ∃ (i : Nat) (slot : α), slots[i]? = some slot ∧ closed slot = false := by
  by_contra none
  push Not at none
  refine absurd (List.countP_eq_length.mpr fun a member => ?_) ((Nat.ne_of_lt short))
  obtain ⟨i, at_i⟩ := List.mem_iff_getElem?.mp member
  simpa using none i a at_i

end slots

section holders
variable {ι : Type u} [Fintype ι] [DecidableEq ι] {held held' : ι → Nat} {i j : ι}

/-- When one holder changes, so does the total. -/
theorem sum_change (others : ∀ j, j ≠ i → held' j = held j) :
    ∑ j, held' j + held i = ∑ j, held j + held' i := by
  have rest : ∑ j ∈ Finset.univ.erase i, held' j = ∑ j ∈ Finset.univ.erase i, held j :=
    Finset.sum_congr rfl fun j member => others j (Finset.ne_of_mem_erase member)
  rw [← Finset.add_sum_erase Finset.univ held' (Finset.mem_univ i),
    ← Finset.add_sum_erase Finset.univ held (Finset.mem_univ i), rest]
  omega

omit [DecidableEq ι] in
theorem le_sum (held : ι → Nat) (i : ι) : held i ≤ ∑ j, held j :=
  Finset.single_le_sum (fun _ _ => Nat.zero_le _) (Finset.mem_univ i)

theorem add_le_sum (held : ι → Nat) (apart : j ≠ i) : held i + held j ≤ ∑ k, held k := by
  rw [← Finset.add_sum_erase Finset.univ held (Finset.mem_univ i)]
  have other : j ∈ Finset.univ.erase i := Finset.mem_erase.mpr ⟨apart, Finset.mem_univ j⟩
  have part := Finset.single_le_sum (f := held) (fun _ _ => Nat.zero_le _) other
  omega

/-- When a set changes at one element, and a weight at the same one. -/
theorem sum_erase_change {κ : Type u} [DecidableEq κ] {S S' : Finset κ} {a : κ} {f f' : κ → Nat}
    (set : S'.erase a = S.erase a) (weight : ∀ b, b ≠ a → f' b = f b) :
    ∑ b ∈ S', f' b + (if a ∈ S then f a else 0) =
      ∑ b ∈ S, f b + if a ∈ S' then f' a else 0 := by
  have split : ∀ (T : Finset κ) (g : κ → Nat),
      ∑ b ∈ T, g b = (if a ∈ T then g a else 0) + ∑ b ∈ T.erase a, g b := by
    intro T g
    by_cases member : a ∈ T
    · rw [if_pos member, Finset.add_sum_erase T g member]
    · rw [if_neg member, Finset.erase_eq_of_notMem member, Nat.zero_add]
  have rest : ∑ b ∈ S'.erase a, f' b = ∑ b ∈ S.erase a, f b := by
    rw [set]
    exact Finset.sum_congr rfl fun b member => weight b (Finset.ne_of_mem_erase member)
  rw [split S' f', split S f, rest]
  omega

end holders

end Sequence
