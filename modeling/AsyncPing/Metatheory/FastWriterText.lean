import AsyncPing.Metatheory.WriterScalars

/-!
What the FastWriter writes lays out the value, with its numbers as they are printed, so
the reader takes it back.
-/
namespace AsyncPing
open JsonText Reader

theorem printed_int (n : Int) : printed n = n := by
  have units : scaled n = n.natAbs * 10 ^ 10 := by
    rw [scaled, Rat.num_intCast, Rat.den_intCast, roundDiv, Nat.mod_one, if_pos (.inl (by decide)),
      Nat.div_one]
  have size : (n.natAbs : Rat) = |(n : Rat)| := by rw [Nat.cast_natAbs, Int.cast_abs]
  have magnitude : ((n.natAbs * 10 ^ 10 : Nat) : Rat) / 10 ^ 10 = |(n : Rat)| := by
    rw [Nat.cast_mul, Nat.cast_pow, Nat.cast_ofNat, mul_div_cancel_right₀ _ (by norm_num), size]
  rw [printed, units, magnitude]
  split
  · rename_i negative
    rw [abs_of_neg negative]
    ring
  · rename_i positive
    rw [abs_of_nonneg (not_lt.mp positive), one_mul]

namespace Double

/-- A sign before zero does not count. -/
theorem printed_unsigned (real : Double) : real.unsigned.printed = real.printed := by
  cases real with
  | finite | infinity => rfl
  | negativeZero => exact_mod_cast printed_int 0

theorem printed_rounded_int {double : Rat → Rat} (rounding : Exact double) {n : Int}
    (few : n.natAbs < 2 ^ 32) : ((finite n).rounded double).printed = n := by
  rw [← printed_unsigned]
  exact (congrArg Double.printed (read_int rounding few)).trans (printed_int n)

theorem printed_unsigned_rounded {double : Rat → Rat} (rounding : Exact double) (real : Double) :
    (real.unsigned.rounded double).printed = (real.rounded double).printed := by
  cases real with
  | finite | infinity => rfl
  | negativeZero =>
      rw [unsigned, rounded_zero rounding.zero]
      exact_mod_cast printed_int 0

end Double

namespace Value
variable (double : Rat → Rat)

/-- What the text of a value says. -/
def written (v : Value) : Json Rat := v.json.mapNumbers fun real => (real.rounded double).printed

def writtenElements (elements : List Value) : List (Json Rat) :=
  Json.mapElements (fun real => (real.rounded double).printed) (jsonElements elements)

def writtenMembers (members : List (String × Value)) : List (List Char × Json Rat) :=
  Json.mapMembers (fun real => (real.rounded double).printed) (jsonMembers members)

/-- No double inside is infinite, nor becomes infinite when it is rounded. -/
abbrev Finite (v : Value) : Prop :=
  v.Shaped fun u => ∀ real, u = .realValue real → (real.rounded double).IsFinite

end Value

/-- No string or name has a NUL inside, and members are in order. -/
abbrev Writable (v : Value) : Prop := v.Shaped fun _ => True

/-! ## Doubles that are too long -/

/-- No double inside is too long to print. -/
abbrev Printable (double : Rat → Rat) (v : Value) : Prop :=
  v.Shaped fun u => ∀ real, u = .realValue real → (sprintf (real.rounded double)).length < 32

/-- The one fault: a real among these numbers that is too long to print. -/
def Overruns (double : Rat → Rat) (number : Value → Prop) (fault : WriterFault) : Prop :=
  ∃ real, number (.realValue real) ∧ Double.valueToString double real = .error fault

/-- It could all be printed, and if nothing else stands in the text, such as a comment or an
infinity, it lays the value out. -/
structure Laid (clear : Prop) (double : Rat → Rat) (v : Value) (text : List Char) : Prop where
  layout : clear → Layout Fits (.value (v.written double)) text
  printable : Printable double v

theorem printable_real {double : Rat → Rat} {real : Double} {text : List Char}
    (written : Double.valueToString double real = .ok text) :
    Printable double (.realValue real) := by
  refine .realValue real fun real' same => ?_
  cases same
  rw [Double.valueToString] at written
  split at written
  · cases written
  · omega

theorem ok_bind {ε α β : Type} {x : Except ε α} {f : α → Except ε β} {b : β}
    (run : x >>= f = .ok b) : ∃ a, x = .ok a ∧ f a = .ok b := by
  cases x with
  | error e => cases run
  | ok a => exact ⟨a, rfl, run⟩

namespace FastWriter
variable {double : Rat → Rat} {yaml : Bool}

/-- The text of a value lays it out. -/
def Lays (double : Rat → Rat) (yaml : Bool) (v : Value) : Prop :=
  ∀ text, writeValue double yaml v = .ok text → Layout Fits (.value (v.written double)) text

theorem blank_nil : Blank [] := fun _ member => absurd member List.not_mem_nil

theorem filler_nil : Filler [] := .blank [] blank_nil

theorem writeElements_lays {v : Value} {elements : List Value}
    (each : ∀ u ∈ v :: elements, Lays double yaml u) {first : Bool} {text : List Char}
    (wrote : writeElements double yaml first (v :: elements) = .ok text) :
    ∃ rest, text = (if first then [] else [',']) ++ rest ∧
      Layout Fits (.elements (Value.writtenElements double (v :: elements))) (rest ++ [']']) := by
  induction elements generalizing v first text with
  | nil =>
      rw [writeElements] at wrote
      obtain ⟨value, wroteValue, wrote⟩ := ok_bind wrote
      obtain ⟨rest, wroteRest, wrote⟩ := ok_bind wrote
      cases wroteRest
      cases wrote
      refine ⟨value, by rw [List.append_nil], ?_⟩
      exact .lastElement filler_nil (each v List.mem_cons_self value wroteValue) blank_nil
  | cons u elements ih =>
      rw [writeElements] at wrote
      obtain ⟨value, wroteValue, wrote⟩ := ok_bind wrote
      obtain ⟨_, wroteRest, wrote⟩ := ok_bind wrote
      obtain ⟨rest, rfl, layout⟩ := ih (fun w member => each w (List.mem_cons_of_mem v member))
        wroteRest
      cases wrote
      refine ⟨value ++ ',' :: rest, by simp, ?_⟩
      change Layout Fits (.elements (v.written double :: Value.writtenElements double _)) _
      have element := Layout.element filler_nil (each v List.mem_cons_self value wroteValue)
        blank_nil layout
      simpa using element

theorem writeMembers_lays {m : String × Value} {members : List (String × Value)}
    (names : ∀ n ∈ m :: members, '\x00' ∉ n.1.toList)
    (each : ∀ n ∈ m :: members, Lays double yaml n.2) {first : Bool} {text : List Char}
    (wrote : writeMembers double yaml first (m :: members) = .ok text) :
    ∃ rest, text = (if first then [] else [',']) ++ rest ∧
      Layout Fits (.members (Value.writtenMembers double (m :: members))) (rest ++ ['}']) := by
  have gap : Filler (if yaml then [' '] else []) := by
    refine .blank _ fun c member => ?_
    cases yaml with
    | true => rw [List.mem_singleton.mp member]; rfl
    | false => cases member
  have colon : (if yaml then ": ".toList else ":".toList) =
      ':' :: (if yaml then [' '] else []) := by cases yaml <;> rfl
  induction members generalizing m first text with
  | nil =>
      obtain ⟨name, v⟩ := m
      have quoted := flatMap_quoted (names _ List.mem_cons_self)
      rw [writeMembers] at wrote
      obtain ⟨value, wroteValue, wrote⟩ := ok_bind wrote
      obtain ⟨rest, wroteRest, wrote⟩ := ok_bind wrote
      cases wroteRest
      cases wrote
      rw [colon, valueToQuotedString_eq]
      have layout := each _ List.mem_cons_self value wroteValue
      have member := Layout.lastMember filler_nil quoted blank_nil gap layout filler_nil
      refine ⟨'"' :: (name.toList.flatMap escape ++ '"' :: ':' ::
        ((if yaml then [' '] else []) ++ value)), by simp, ?_⟩
      change Layout Fits (.members [(name.toList, v.written double)]) _
      simpa using member
  | cons n members ih =>
      obtain ⟨name, v⟩ := m
      have quoted := flatMap_quoted (names _ List.mem_cons_self)
      rw [writeMembers] at wrote
      obtain ⟨value, wroteValue, wrote⟩ := ok_bind wrote
      obtain ⟨_, wroteRest, wrote⟩ := ok_bind wrote
      obtain ⟨rest, rfl, more⟩ := ih (fun w member => names w (List.mem_cons_of_mem _ member))
        (fun w member => each w (List.mem_cons_of_mem _ member)) wroteRest
      cases wrote
      rw [colon, valueToQuotedString_eq]
      have layout := each _ List.mem_cons_self value wroteValue
      have member := Layout.member filler_nil quoted blank_nil gap layout filler_nil more
      refine ⟨'"' :: (name.toList.flatMap escape ++ '"' :: ':' ::
        ((if yaml then [' '] else []) ++ (value ++ ',' :: rest))), by simp, ?_⟩
      change Layout Fits (.members ((name.toList, v.written double) ::
        Value.writtenMembers double _)) _
      simpa using member

/-! ## Values -/

theorem writeValue_lays (rounding : Exact double) {v : Value} (isFinite : v.Finite double) :
    Lays double yaml v := by
  induction isFinite with
  | nullValue =>
      rintro text ⟨⟩
      exact .null
  | intValue int =>
      rintro text ⟨⟩
      have bound : int.toInt.natAbs < 2 ^ 32 := by
        have lower := int.le_toInt
        have upper := int.toInt_lt
        omega
      change Layout Fits (.value (.number ((Double.finite int.toInt).rounded double).printed)) _
      rw [Double.printed_rounded_int rounding bound]
      exact int_layout int
  | uintValue uint =>
      rintro text ⟨⟩
      have bound : (uint.toNat : Int).natAbs < 2 ^ 32 := uint.toNat_lt
      have same := Double.printed_rounded_int rounding bound
      rw [Int.cast_natCast] at same
      change Layout Fits (.value (.number ((Double.finite uint.toNat).rounded double).printed)) _
      rw [same]
      exact uint_layout uint
  | realValue real inside =>
      intro text wrote
      change Layout Fits (.value (.number (real.unsigned.rounded double).printed)) _
      rw [Double.printed_unsigned_rounded rounding]
      exact real_layout wrote (inside real rfl)
  | stringValue string noNul =>
      rintro text ⟨⟩
      rw [valueToQuotedString_eq]
      exact .string (flatMap_quoted noNul)
  | booleanValue bool =>
      rintro text ⟨⟩
      cases bool with
      | true => exact .true
      | false => exact .false
  | arrayValue elements _ ih =>
      intro text wrote
      rw [writeValue] at wrote
      obtain ⟨inside, wroteInside, wrote⟩ := ok_bind wrote
      cases wrote
      cases elements with
      | nil =>
          cases wroteInside
          exact .emptyArray blank_nil
      | cons v elements =>
          obtain ⟨rest, rfl, layout⟩ := writeElements_lays ih wroteInside
          exact .array layout
  | objectValue members _ names _ ih =>
      intro text wrote
      rw [writeValue] at wrote
      obtain ⟨inside, wroteInside, wrote⟩ := ok_bind wrote
      cases wrote
      cases members with
      | nil =>
          cases wroteInside
          exact .emptyObject filler_nil
      | cons m members =>
          obtain ⟨rest, rfl, layout⟩ := writeMembers_lays names ih wroteInside
          exact .object layout

/-! ## Faults -/

theorem writeElements_faults {number : Value → Prop} {elements : List Value}
    (each : ∀ v ∈ elements, match writeValue double yaml v with
      | .ok _ => Printable double v
      | .error fault => Overruns double number fault) (first : Bool) :
    match writeElements double yaml first elements with
    | .ok _ => ∀ v ∈ elements, Printable double v
    | .error fault => Overruns double number fault := by
  induction elements generalizing first with
  | nil => exact nofun
  | cons v elements ih =>
      have head := each v List.mem_cons_self
      have tail := ih (fun u member => each u (List.mem_cons_of_mem v member)) false
      rw [writeElements]
      cases value : writeValue double yaml v with
      | error fault => rwa [value] at head
      | ok text =>
          rw [value] at head
          cases rest : writeElements double yaml false elements with
          | error fault => rwa [rest] at tail
          | ok more =>
              rw [rest] at tail
              intro u member
              cases List.mem_cons.mp member with
              | inl same => exact same ▸ head
              | inr later => exact tail u later

theorem writeMembers_faults {number : Value → Prop} {members : List (String × Value)}
    (each : ∀ m ∈ members, match writeValue double yaml m.2 with
      | .ok _ => Printable double m.2
      | .error fault => Overruns double number fault) (first : Bool) :
    match writeMembers double yaml first members with
    | .ok _ => ∀ m ∈ members, Printable double m.2
    | .error fault => Overruns double number fault := by
  induction members generalizing first with
  | nil => exact nofun
  | cons m members ih =>
      obtain ⟨name, v⟩ := m
      have head := each _ List.mem_cons_self
      have tail := ih (fun u member => each u (List.mem_cons_of_mem _ member)) false
      rw [writeMembers]
      cases value : writeValue double yaml v with
      | error fault => rwa [value] at head
      | ok text =>
          rw [value] at head
          cases rest : writeMembers double yaml false members with
          | error fault => rwa [rest] at tail
          | ok more =>
              rw [rest] at tail
              intro n member
              cases List.mem_cons.mp member with
              | inl same => exact same ▸ head
              | inr later => exact tail n later

/-- The text is there exactly when it could all be printed. -/
theorem writeValue_faults {number : Value → Prop} {v : Value} (shaped : v.Shaped number) :
    match writeValue double yaml v with
    | .ok _ => Printable double v
    | .error fault => Overruns double number fault := by
  induction shaped with
  | nullValue => exact .nullValue
  | intValue int => exact .intValue int nofun
  | uintValue uint => exact .uintValue uint nofun
  | stringValue string noNul => exact .stringValue string noNul
  | booleanValue bool => exact .booleanValue bool
  | realValue real inside =>
      rw [writeValue]
      cases text : Double.valueToString double real with
      | error fault => exact ⟨real, inside, text⟩
      | ok text' => exact printable_real text
  | arrayValue elements _ ih =>
      have faults := writeElements_faults ih true
      rw [writeValue]
      cases rest : writeElements double yaml true elements with
      | error fault => rwa [rest] at faults
      | ok text =>
          rw [rest] at faults
          exact .arrayValue elements faults
  | objectValue members sorted names _ ih =>
      have faults := writeMembers_faults ih true
      rw [writeValue]
      cases rest : writeMembers double yaml true members with
      | error fault => rwa [rest] at faults
      | ok text =>
          rw [rest] at faults
          exact .objectValue members sorted names faults

end FastWriter
end AsyncPing
