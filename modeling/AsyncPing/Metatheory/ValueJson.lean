import AsyncPing.Metatheory.Doubles
import AsyncPing.Metatheory.ValueShape
import AsyncPing.Library.JsonText

/-!
What a value says, whichever of its representations it has: a number may be held as an
int, an unsigned int or a double, and zero with a sign. The value read for a JSON value has
its numbers rounded and the members of its objects in the order of their names, the last of
each name.
-/
namespace AsyncPing
open JsonText

namespace Value

mutual

def json : Value → Json Double
  | nullValue => .null
  | intValue int => .number (.finite int.toInt)
  | uintValue uint => .number (.finite uint.toNat)
  | realValue real => .number real.unsigned
  | stringValue string => .string string.toList
  | booleanValue bool => .boolean bool
  | arrayValue elements => .array (jsonElements elements)
  | objectValue members => .object (jsonMembers members)

def jsonElements : List Value → List (Json Double)
  | [] => []
  | v :: elements => json v :: jsonElements elements

def jsonMembers : List (String × Value) → List (List Char × Json Double)
  | [] => []
  | (name, v) :: members => (name.toList, json v) :: jsonMembers members

end

end Value

/-! ## Members by name -/

section members
variable {α : Type}

/-- The first of this name. -/
def find (name : List Char) : List (List Char × α) → Option α
  | [] => none
  | (k, a) :: members => if k = name then some a else find name members

def insertMember (name : List Char) (a : α) : List (List Char × α) → List (List Char × α)
  | [] => [(name, a)]
  | (k, b) :: members =>
      if k = name then (k, a) :: members
      else if Value.precedes name k then (name, a) :: (k, b) :: members
      else (k, b) :: insertMember name a members

/-- One after the other, as they stand in a text. -/
def collect (kept members : List (List Char × α)) : List (List Char × α) :=
  members.foldl (fun kept m => insertMember m.1 m.2 kept) kept

theorem find_insertMember (name other : List Char) (a : α) (members : List (List Char × α)) :
    find name (insertMember other a members) =
      if other = name then some a else find name members := by
  induction members with
  | nil => rfl
  | cons m members ih =>
      obtain ⟨k, b⟩ := m
      rw [insertMember]
      split
      · rename_i same
        rw [find, find, same]
        split <;> rfl
      · rename_i differs
        split
        · rw [find]
        · rw [find, find, ih]
          split
          · rename_i named
            rw [if_neg fun same => differs (named.trans same.symm)]
          · rfl

theorem find_append (name : List Char) (front back : List (List Char × α)) :
    find name (front ++ back) = (find name front).or (find name back) := by
  induction front with
  | nil => rfl
  | cons m front ih =>
      obtain ⟨k, a⟩ := m
      rw [List.cons_append, find, find, ih]
      split <;> rfl

/-- Of each name the last member stays. -/
theorem find_collect (name : List Char) (kept members : List (List Char × α)) :
    find name (collect kept members) = (find name members.reverse).or (find name kept) := by
  induction members generalizing kept with
  | nil => rfl
  | cons m members ih =>
      obtain ⟨k, a⟩ := m
      rw [collect, List.foldl_cons]
      refine (ih _).trans ?_
      rw [find_insertMember, List.reverse_cons, find_append, Option.or_assoc, find, find]
      split <;> rfl

end members

/-! ## The order of members -/

section order
variable {α : Type}

/-- The names are in order, each once. -/
abbrev InOrder (members : List (List Char × α)) : Prop :=
  members.Pairwise fun m n => Value.precedes m.1 n.1 = true

theorem find_later {name k : List Char} {a : α} {members : List (List Char × α)}
    (before : ∀ m ∈ members, Value.precedes k m.1 = true) (found : find name members = some a) :
    Value.precedes k name = true := by
  induction members with
  | nil => cases found
  | cons m members ih =>
      obtain ⟨l, b⟩ := m
      rw [find] at found
      split at found
      · rename_i same
        exact same ▸ before (l, b) List.mem_cons_self
      · exact ih (fun m member => before m (List.mem_cons_of_mem _ member)) found

theorem find_ahead {k : List Char} {members : List (List Char × α)}
    (before : ∀ m ∈ members, Value.precedes k m.1 = true) : find k members = none := by
  cases found : find k members with
  | none => rfl
  | some a =>
      have loop := find_later before found
      rw [Value.precedes_irrefl] at loop
      cases loop

/-- Members in order are known by what each name finds. -/
theorem inOrder_ext {members others : List (List Char × α)} (sorted : InOrder members)
    (sorted' : InOrder others) (same : ∀ name, find name members = find name others) :
    members = others := by
  induction members generalizing others with
  | nil =>
      cases others with
      | nil => rfl
      | cons n others =>
          have first := same n.1
          rw [find, find, if_pos rfl] at first
          cases first
  | cons m members ih =>
      obtain ⟨k, a⟩ := m
      obtain ⟨ahead, sorted⟩ := List.pairwise_cons.mp sorted
      cases others with
      | nil =>
          have first := same k
          rw [find, find, if_pos rfl] at first
          cases first
      | cons n others =>
          obtain ⟨l, b⟩ := n
          obtain ⟨ahead', sorted'⟩ := List.pairwise_cons.mp sorted'
          have atK := same k
          have atL := same l
          rw [find, find, if_pos rfl] at atK
          rw [find, find, if_pos (rfl : l = l)] at atL
          by_cases equal : k = l
          · rw [if_pos equal.symm, Option.some.injEq] at atK
            rw [equal, atK, ih sorted sorted' fun name => ?_]
            have rest := same name
            rw [find, find, ← equal] at rest
            by_cases named : k = name
            · rw [← named, find_ahead ahead, find_ahead (equal ▸ ahead')]
            · rwa [if_neg named, if_neg named] at rest
          · rw [if_neg (Ne.symm equal)] at atK
            rw [if_neg equal] at atL
            have first := find_later ahead' atK.symm
            have second := find_later ahead atL
            have loop := Value.precedes_trans first second
            rw [Value.precedes_irrefl] at loop
            cases loop

theorem insertMember_last {name : List Char} {a : α} {members : List (List Char × α)}
    (ahead : ∀ m ∈ members, Value.precedes m.1 name = true) :
    insertMember name a members = members ++ [(name, a)] := by
  induction members with
  | nil => rfl
  | cons m members ih =>
      obtain ⟨k, b⟩ := m
      have before := ahead (k, b) List.mem_cons_self
      have differs : k ≠ name := by
        rintro rfl
        rw [Value.precedes_irrefl] at before
        cases before
      have notAfter : ¬Value.precedes name k = true := by
        intro after
        have loop := Value.precedes_trans before after
        rw [Value.precedes_irrefl] at loop
        cases loop
      rw [insertMember, if_neg differs, if_neg notAfter,
        ih fun m member => ahead m (List.mem_cons_of_mem _ member), List.cons_append]

/-- Members that are in order already stay as they are. -/
theorem collect_inOrder {kept members : List (List Char × α)} (sorted : InOrder (kept ++ members)) :
    collect kept members = kept ++ members := by
  induction members generalizing kept with
  | nil => rw [List.append_nil]; rfl
  | cons m members ih =>
      have ahead : ∀ n ∈ kept, Value.precedes n.1 m.1 = true := fun n member =>
        (List.pairwise_append.mp sorted).2.2 n member m List.mem_cons_self
      have same : kept ++ m :: members = (kept ++ [m]) ++ members := by
        rw [List.append_assoc, List.singleton_append]
      rw [same] at sorted ⊢
      rw [collect, List.foldl_cons, insertMember_last ahead]
      exact ih sorted

end order

/-! ## What is read -/

section normal
variable (double : Rat → Rat)

mutual

def normal : Json Rat → Json Double
  | .null => .null
  | .boolean b => .boolean b
  | .number q => .number (.read double q)
  | .string content => .string content
  | .array elements => .array (normalElements elements)
  | .object members => .object (collect [] (normalMembers members))

def normalElements : List (Json Rat) → List (Json Double)
  | [] => []
  | j :: elements => normal j :: normalElements elements

def normalMembers : List (List Char × Json Rat) → List (List Char × Json Double)
  | [] => []
  | (name, j) :: members => (name, normal j) :: normalMembers members

end

theorem find_normalMembers (name : List Char) (members : List (List Char × Json Rat)) :
    find name (normalMembers double members).reverse =
      (find name members.reverse).map (normal double) := by
  induction members with
  | nil => rfl
  | cons m members ih =>
      obtain ⟨k, j⟩ := m
      rw [normalMembers, List.reverse_cons, List.reverse_cons, find_append, find_append, ih,
        Option.map_or, find, find, find, find]
      split <;> rfl

end normal

namespace Value

theorem jsonElements_append (elements : List Value) (v : Value) :
    jsonElements (elements ++ [v]) = jsonElements elements ++ [v.json] := by
  induction elements with
  | nil => rfl
  | cons u elements ih => rw [List.cons_append, jsonElements, jsonElements, ih, List.cons_append]

theorem jsonMembers_update (name : String) (v : Value) (members : List (String × Value)) :
    jsonMembers (updateMembers name (fun _ => v) members) =
      insertMember name.toList v.json (jsonMembers members) := by
  induction members with
  | nil => rfl
  | cons m members ih =>
      obtain ⟨k, u⟩ := m
      rw [updateMembers, jsonMembers, insertMember]
      by_cases same : k = name
      · rw [if_pos same, if_pos (congrArg String.toList same), jsonMembers]
      · rw [if_neg same, if_neg fun lists => same (String.toList_inj.mp lists)]
        split
        · rw [jsonMembers, jsonMembers]
        · rw [jsonMembers, ih]

theorem jsonMembers_eq_map (members : List (String × Value)) :
    jsonMembers members = members.map fun m => (m.1.toList, m.2.json) := by
  induction members with
  | nil => rfl
  | cons m members ih => rw [jsonMembers, ih, List.map_cons]

theorem inOrder_jsonMembers {members : List (String × Value)} (sorted : Sorted members) :
    InOrder (jsonMembers members) := by
  rw [jsonMembers_eq_map]
  exact List.pairwise_map.mpr sorted

theorem find_jsonMembers (name : String) (members : List (String × Value)) :
    find name.toList (jsonMembers members) = (lookup name members).map json := by
  induction members with
  | nil => rfl
  | cons m members ih =>
      obtain ⟨k, u⟩ := m
      rw [jsonMembers, find, lookup]
      by_cases same : k = name
      · rw [if_pos same, if_pos (congrArg String.toList same)]
        rfl
      · rw [if_neg same, if_neg fun lists => same (String.toList_inj.mp lists), ih]

/-! ## A value read back -/

section values
variable {number : Value → Prop} (double : Rat → Rat) (f : Double → Rat)

theorem normalElements_map {elements : List Value}
    (each : ∀ v ∈ elements, normal double (v.json.mapNumbers f) =
      v.json.mapNumbers fun value => .read double (f value)) :
    normalElements double (Json.mapElements f (jsonElements elements)) =
      Json.mapElements (fun value => .read double (f value)) (jsonElements elements) := by
  induction elements with
  | nil => rfl
  | cons v elements ih =>
      rw [jsonElements, Json.mapElements, Json.mapElements, normalElements,
        each v List.mem_cons_self, ih fun u member => each u (List.mem_cons_of_mem v member)]

theorem normalMembers_map {members : List (String × Value)}
    (each : ∀ m ∈ members, normal double (m.2.json.mapNumbers f) =
      m.2.json.mapNumbers fun value => .read double (f value)) :
    normalMembers double (Json.mapMembers f (jsonMembers members)) =
      Json.mapMembers (fun value => .read double (f value)) (jsonMembers members) := by
  induction members with
  | nil => rfl
  | cons m members ih =>
      obtain ⟨name, v⟩ := m
      rw [jsonMembers, Json.mapMembers, Json.mapMembers, normalMembers,
        each _ List.mem_cons_self, ih fun u member => each u (List.mem_cons_of_mem _ member)]

theorem mapMembers_eq_map {μ ν : Type} (f : ν → μ) (ms : List (List Char × Json ν)) :
    Json.mapMembers f ms = ms.map fun m => (m.1, m.2.mapNumbers f) := by
  induction ms with
  | nil => rfl
  | cons m ms ih =>
      obtain ⟨name, j⟩ := m
      rw [Json.mapMembers, ih, List.map_cons]

/-- The members of a value are in order already. -/
theorem normal_mapNumbers {v : Value} (shaped : v.Shaped number) :
    normal double (v.json.mapNumbers f) =
      v.json.mapNumbers fun value => .read double (f value) := by
  induction shaped with
  | nullValue | intValue | uintValue | realValue | stringValue | booleanValue => rfl
  | arrayValue elements _ ih =>
      rw [json, Json.mapNumbers, Json.mapNumbers, normal, normalElements_map double f ih]
  | objectValue members sorted _ _ ih =>
      have ordered : InOrder (Json.mapMembers (fun value => Double.read double (f value))
          (jsonMembers members)) := by
        rw [mapMembers_eq_map]
        exact List.pairwise_map.mpr (inOrder_jsonMembers sorted)
      rw [json, Json.mapNumbers, Json.mapNumbers, normal, normalMembers_map double f ih,
        collect_inOrder ordered, List.nil_append]

end values
end Value
end AsyncPing
