import Mathlib.Data.List.Basic

/-!
Doubly linked lists given by two link functions. A list of nodes is linked when
each node leads forward to its successor and back from it. Splicing a node in
after the first and taking one out before the last are local: the links that are
not written stay.
-/
universe u

namespace DoublyLinked
variable {ι : Type u}

/-- Consecutive nodes are linked both ways. -/
def Links (next prev : ι → Option ι) : List ι → Prop
  | x :: y :: l => next x = some y ∧ prev y = some x ∧ Links next prev (y :: l)
  | _ => True

/-- The nodes met on the way along `link`, `steps` links at most. -/
def walk (link : ι → Option ι) : (steps : Nat) → ι → List ι
  | 0, a => [a]
  | steps + 1, a =>
      match link a with
      | none => [a]
      | some b => a :: walk link steps b

variable {next prev next' prev' : ι → Option ι}

/-- Links of a concatenation: those of both halves, which share a node. -/
theorem links_append (l : List ι) (x : ι) (r : List ι) :
    Links next prev (l ++ x :: r) ↔
      Links next prev (l ++ [x]) ∧ Links next prev (x :: r) := by
  induction l with
  | nil => simp [Links]
  | cons a l ih =>
      cases l with
      | nil => simp [Links, and_assoc]
      | cons b l => simpa [Links, and_assoc] using fun _ _ => ih

theorem links_reverse (l : List ι) :
    Links prev next l.reverse ↔ Links next prev l := by
  induction l with
  | nil => simp [Links]
  | cons a l ih =>
      cases l with
      | nil => simp [Links]
      | cons b l =>
          rw [List.reverse_cons] at ih
          simp only [List.reverse_cons, List.append_assoc, List.singleton_append]
          rw [links_append, ih]
          simp [Links, and_comm, and_assoc]

/-- Only the links between the nodes matter; where the first node leads back to
does not. -/
theorem Links.congr {l : List ι} (links : Links next prev l)
    (forward : ∀ x ∈ l, next' x = next x) (backward : ∀ x ∈ l.tail, prev' x = prev x) :
    Links next' prev' l := by
  induction l with
  | nil => trivial
  | cons a l ih =>
      cases l with
      | nil => trivial
      | cons b l =>
          refine ⟨?_, ?_, ih links.2.2 ?_ ?_⟩
          · rw [forward a (.head _)]
            exact links.1
          · rw [backward b (.head _)]
            exact links.2.1
          · exact fun x member => forward x (.tail _ member)
          · exact fun x member => backward x (.tail _ member)

/-- Splice `n` in between `h` and `y`. -/
theorem Links.insert {h n y : ι} {l : List ι} (links : Links next prev (h :: y :: l))
    (distinct : (h :: y :: l).Nodup) (apart : n ∉ h :: y :: l)
    (to_n : next' h = some n) (of_n : next' n = some y) (back_n : prev' n = some h)
    (back_y : prev' y = some n) (forward : ∀ a, a ≠ h → a ≠ n → next' a = next a)
    (backward : ∀ a, a ≠ y → a ≠ n → prev' a = prev a) :
    Links next' prev' (h :: n :: y :: l) := by
  refine ⟨to_n, back_n, of_n, back_y, ?_⟩
  have fresh : ∀ a ∈ y :: l, a ≠ n := by
    intro a member same
    exact apart (same ▸ .tail _ member)
  have afterHead : ∀ a ∈ y :: l, a ≠ h := by
    intro a member same
    exact (List.nodup_cons.mp distinct).1 (same ▸ member)
  refine links.2.2.congr ?_ ?_
  · exact fun a member => forward a (afterHead a member) (fresh a member)
  · intro a member
    refine backward a ?_ (fresh a (.tail _ member))
    intro same
    subst same
    exact (List.nodup_cons.mp (List.nodup_cons.mp distinct).2).1 member

/-- Take `n` out from between `p` and the last node `t`. -/
theorem Links.remove {l : List ι} {p n t : ι} (links : Links next prev (l ++ [p, n, t]))
    (distinct : (l ++ [p, n, t]).Nodup) (to_t : next' p = some t) (back_t : prev' t = some p)
    (forward : ∀ a, a ≠ p → next' a = next a) (backward : ∀ a, a ≠ t → prev' a = prev a) :
    Links next' prev' (l ++ [p, t]) := by
  obtain ⟨before, -⟩ := (links_append l p [n, t]).mp links
  refine (links_append l p [t]).mpr ⟨?_, to_t, back_t, trivial⟩
  -- the links up to `p` are those of the list read backwards from `p`
  rw [← links_reverse] at before ⊢
  rw [List.reverse_append, List.reverse_singleton, List.singleton_append] at before ⊢
  have notIn : ∀ a ∈ l, a ≠ p ∧ a ≠ t := by
    intro a member
    have apart := (List.nodup_append.mp distinct).2.2 a member
    exact ⟨apart p (.head _), apart t (.tail _ (.tail _ (.head _)))⟩
  have notLast : p ≠ t := by
    intro same
    have tail := (List.nodup_append.mp distinct).2.1
    simp [same] at tail
  refine before.congr ?_ ?_
  · intro a member
    refine backward a ?_
    cases List.mem_cons.mp member with
    | inl same =>
        subst same
        exact notLast
    | inr inside => exact (notIn a (List.mem_reverse.mp inside)).2
  · exact fun a member => forward a (notIn a (List.mem_reverse.mp member)).1

/-- A walk along the forward links meets the nodes in order and stops at the
last one. -/
theorem Links.walk_eq {a z : ι} {l : List ι} (links : Links next prev (a :: l))
    (last : (a :: l).getLast? = some z) (ends : next z = none) (steps : Nat)
    (enough : l.length ≤ steps) : walk next steps a = a :: l := by
  induction l generalizing a steps with
  | nil =>
      rw [List.getLast?_singleton, Option.some.injEq] at last
      subst last
      cases steps with
      | zero => rfl
      | succ steps => rw [walk, ends]
  | cons b l ih =>
      cases steps with
      | zero => simp at enough
      | succ steps =>
          have rest := ih links.2.2 (by simpa using last) steps (by simpa using enough)
          simp only [walk, links.1, rest]

end DoublyLinked
