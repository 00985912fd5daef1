import AsyncPing.Core.JsonValue
import Mathlib.Data.List.Basic

/-!
The values that can be built: strings and names end at a NUL, so they have none
inside, and the names of an object's members are in the order of `strcmp`, each once.
What is asked of numbers is a parameter.
-/
namespace AsyncPing
namespace Value

/-! ## The order of names -/

theorem precedes_irrefl (a : List Char) : precedes a a = false := by
  induction a with
  | nil => rfl
  | cons c a ih => rw [precedes, if_pos rfl, ih]

theorem precedes_trans {a b c : List Char} (first : precedes a b = true)
    (second : precedes b c = true) : precedes a c = true := by
  induction a generalizing b c with
  | nil =>
      cases c with
      | nil => cases b <;> cases second
      | cons => rfl
  | cons x a ih =>
      cases b with
      | nil => cases first
      | cons y b =>
          cases c with
          | nil => cases second
          | cons z c =>
              simp only [precedes] at first second ⊢
              split at first
              · rename_i same
                rw [same]
                split
                · rename_i next
                  rw [if_pos next] at second
                  exact ih first second
                · rename_i next
                  rwa [if_neg next] at second
              · simp only [decide_eq_true_eq] at first
                split at second
                · rename_i same
                  rw [if_neg (by omega), ← same]
                  exact decide_eq_true first
                · simp only [decide_eq_true_eq] at second
                  rw [if_neg (by omega)]
                  exact decide_eq_true (by omega)

theorem precedes_connected {a b : List Char} (before : precedes a b = false)
    (after : precedes b a = false) : a = b := by
  induction a generalizing b with
  | nil =>
      cases b with
      | nil => rfl
      | cons => cases before
  | cons x a ih =>
      cases b with
      | nil => cases after
      | cons y b =>
          simp only [precedes] at before after
          by_cases same : x.toNat = y.toNat
          · rw [if_pos same] at before
            rw [if_pos same.symm] at after
            rw [Char.toNat_inj.mp same, ih before after]
          · rw [if_neg same, decide_eq_false_iff_not] at before
            rw [if_neg (Ne.symm same), decide_eq_false_iff_not] at after
            omega

/-! ## Members -/

abbrev Sorted (members : List (String × Value)) : Prop :=
  members.Pairwise fun m n => precedes m.1.toList n.1.toList = true

theorem mem_updateMembers {key : String} {v : Value} {members : List (String × Value)}
    {m : String × Value} (member : m ∈ updateMembers key (fun _ => v) members) :
    m ∈ members ∨ m = (key, v) := by
  induction members with
  | nil => exact .inr (List.mem_singleton.mp member)
  | cons n members ih =>
      obtain ⟨k, u⟩ := n
      rw [updateMembers] at member
      split at member
      · rename_i same
        cases List.mem_cons.mp member with
        | inl head => exact .inr (same ▸ head)
        | inr rest => exact .inl (List.mem_cons_of_mem _ rest)
      · split at member
        · cases List.mem_cons.mp member with
          | inl head => exact .inr head
          | inr rest => exact .inl rest
        · cases List.mem_cons.mp member with
          | inl head => exact .inl (head ▸ List.mem_cons_self)
          | inr rest => exact (ih rest).imp_left (List.mem_cons_of_mem _)

theorem sorted_updateMembers {key : String} {v : Value} {members : List (String × Value)}
    (sorted : Sorted members) : Sorted (updateMembers key (fun _ => v) members) := by
  induction members with
  | nil => exact List.pairwise_singleton ..
  | cons n members ih =>
      obtain ⟨k, u⟩ := n
      have tail := List.pairwise_cons.mp sorted
      rw [updateMembers]
      split
      · exact List.pairwise_cons.mpr ⟨tail.1, tail.2⟩
      · rename_i other
        split
        · rename_i before
          refine List.pairwise_cons.mpr ⟨fun m member => ?_, sorted⟩
          cases List.mem_cons.mp member with
          | inl head => rw [head]; exact before
          | inr rest => exact precedes_trans before (tail.1 m rest)
        · rename_i notBefore
          refine List.pairwise_cons.mpr ⟨fun m member => ?_, ih tail.2⟩
          cases mem_updateMembers member with
          | inl rest => exact tail.1 m rest
          | inr new =>
              rw [new]
              by_contra notAfter
              refine other (String.toList_inj.mp (precedes_connected ?_ ?_))
              · simpa using notAfter
              · simpa using notBefore

theorem lookup_mem {key : String} {v : Value} {members : List (String × Value)}
    (found : lookup key members = some v) : (key, v) ∈ members := by
  induction members with
  | nil => cases found
  | cons n members ih =>
      obtain ⟨k, u⟩ := n
      rw [lookup] at found
      split at found
      · rename_i same
        rw [Option.some.injEq] at found
        rw [same, found]
        exact List.mem_cons_self
      · exact List.mem_cons_of_mem _ (ih found)

/-! ## Shape -/

inductive Shaped (number : Value → Prop) : Value → Prop
  | nullValue : Shaped number .nullValue
  | intValue (int : Int32) (inside : number (.intValue int)) : Shaped number (.intValue int)
  | uintValue (uint : UInt32) (inside : number (.uintValue uint)) :
      Shaped number (.uintValue uint)
  | realValue (real : Double) (inside : number (.realValue real)) :
      Shaped number (.realValue real)
  | stringValue (string : String) (noNul : '\x00' ∉ string.toList) :
      Shaped number (.stringValue string)
  | booleanValue (bool : Bool) : Shaped number (.booleanValue bool)
  | arrayValue (elements : List Value) (each : ∀ v ∈ elements, Shaped number v) :
      Shaped number (.arrayValue elements)
  | objectValue (members : List (String × Value)) (sorted : Sorted members)
      (names : ∀ m ∈ members, '\x00' ∉ m.1.toList) (each : ∀ m ∈ members, Shaped number m.2) :
      Shaped number (.objectValue members)

namespace Shaped
variable {number number' : Value → Prop}

theorem mono {v : Value} (shaped : v.Shaped number) (weaken : ∀ u, number u → number' u) :
    v.Shaped number' := by
  induction shaped with
  | nullValue => exact .nullValue
  | intValue int inside => exact .intValue int (weaken _ inside)
  | uintValue uint inside => exact .uintValue uint (weaken _ inside)
  | realValue real inside => exact .realValue real (weaken _ inside)
  | stringValue string noNul => exact .stringValue string noNul
  | booleanValue bool => exact .booleanValue bool
  | arrayValue elements _ ih => exact .arrayValue elements ih
  | objectValue members sorted names _ ih => exact .objectValue members sorted names ih

theorem noElements : (Value.arrayValue []).Shaped number := .arrayValue [] nofun

theorem noMembers : (Value.objectValue []).Shaped number := .objectValue [] .nil nofun nofun

theorem append {elements : List Value} {v : Value}
    (array : (Value.arrayValue elements).Shaped number) (last : v.Shaped number) :
    (Value.arrayValue (elements ++ [v])).Shaped number := by
  cases array with
  | arrayValue _ each =>
      refine .arrayValue _ fun u member => ?_
      cases List.mem_append.mp member with
      | inl before => exact each u before
      | inr new => exact List.mem_singleton.mp new ▸ last

theorem update {members : List (String × Value)} {name : String} {v : Value}
    (object : (Value.objectValue members).Shaped number) (noNul : '\x00' ∉ name.toList)
    (value : v.Shaped number) :
    (Value.objectValue (updateMembers name (fun _ => v) members)).Shaped number := by
  cases object with
  | objectValue _ sorted names each =>
      refine .objectValue _ (sorted_updateMembers sorted) (fun m member => ?_) fun m member => ?_
      · cases mem_updateMembers member with
        | inl before => exact names m before
        | inr new => exact new ▸ noNul
      · cases mem_updateMembers member with
        | inl before => exact each m before
        | inr new => exact new ▸ value

theorem member {members : List (String × Value)} {name : String}
    (object : (Value.objectValue members).Shaped number) :
    ((lookup name members).getD .nullValue).Shaped number := by
  cases object with
  | objectValue _ _ _ each =>
      cases found : lookup name members with
      | none => exact .nullValue
      | some v => exact each _ (lookup_mem found)

end Shaped
end Value
end AsyncPing
