import AsyncPing.Library.Contract
import AsyncPing.Metatheory.FastWriterText

/-!
What the styled writers write lays out the value too, whichever way they break the lines
of its arrays, unless comments stand in it. With comments or without, their assertions hold,
and the only fault is the one of a double that is too long to print.
-/
namespace AsyncPing
open Exec JsonText Reader

/-- No array or object holds more values than an unsigned int counts. -/
inductive Counted : Value → Prop
  | scalar (v : Value) (noArray : ∀ elements, v ≠ .arrayValue elements)
      (noObject : ∀ members, v ≠ .objectValue members) : Counted v
  | arrayValue (elements : List Value) (few : elements.length < 2 ^ 32)
      (each : ∀ v ∈ elements, Counted v) : Counted (.arrayValue elements)
  | objectValue (members : List (String × Value)) (few : members.length < 2 ^ 32)
      (each : ∀ m ∈ members, Counted m.2) : Counted (.objectValue members)

namespace StyledWriter
variable {clear : Prop} {double : Rat → Rat} {number : Value → Prop} {w : StyledWriter}

/-- What stands beside values: in a clear text only blanks. -/
abbrev Gap (clear : Prop) (text : List Char) : Prop := clear → Blank text

/-- A clear text has no comments. -/
abbrev Bare (clear : Prop) (comments : CommentsAt) : Prop := clear → comments = uncommented

/-- No double becomes infinite in a clear text. -/
abbrev Bounded (clear : Prop) (double : Rat → Rat) (number : Value → Prop) : Prop :=
  clear → ∀ real, number (.realValue real) → (real.rounded double).IsFinite

/-- No texts of elements are being collected. -/
structure Ready (clear : Prop) (w : StyledWriter) : Prop where
  indentString : Gap clear w.indentString
  indentation : Gap clear w.indentation
  writes : w.addChildValues = false

/-- The state after this text was written, with these texts of elements left over. -/
def wrote (w : StyledWriter) (text : List Char) (children : List (List Char)) : StyledWriter :=
  { w with document := w.document ++ text, childValues := children }

def deeper (w : StyledWriter) : StyledWriter :=
  { w with indentString := w.indentString ++ w.indentation }

theorem wrote_wrote (front back : List Char) (children more : List (List Char)) :
    (w.wrote front children).wrote back more = w.wrote (front ++ back) more := by
  rw [wrote, wrote, wrote, List.append_assoc]

@[simp] theorem wrote_childValues (text : List Char) (children : List (List Char)) :
    (w.wrote text children).childValues = children := rfl

theorem wrote_nothing : w.wrote [] w.childValues = w := by rw [wrote, List.append_nil]

theorem Ready.wrote (ready : w.Ready clear) (text : List Char) (children : List (List Char)) :
    (w.wrote text children).Ready clear :=
  ⟨ready.indentString, ready.indentation, ready.writes⟩

theorem blank_append {front back : List Char} (first : Blank front) (second : Blank back) :
    Blank (front ++ back) := fun c member =>
  (List.mem_append.mp member).elim (first c) (second c)

theorem blank_space : Blank [' '] := fun c member => by rw [List.mem_singleton.mp member]; rfl

theorem gap_nil : Gap clear [] := fun _ => FastWriter.blank_nil

theorem Gap.append {front back : List Char} (first : Gap clear front) (second : Gap clear back) :
    Gap clear (front ++ back) := fun isClear => blank_append (first isClear) (second isClear)

theorem Ready.deeper (ready : w.Ready clear) : w.deeper.Ready clear :=
  ⟨Gap.append ready.indentString ready.indentation, ready.indentation, ready.writes⟩

/-! ## Lines -/

theorem append_eq (text : List Char) : append text w = .ok ((), w.wrote text w.childValues) := rfl

theorem comma_eq (more : Prop) [Decidable more] (rest : Writing Unit) (w : StyledWriter) :
    (if more then do append [',']; rest else rest) w =
      rest (w.wrote (if more then [','] else []) w.childValues) := by
  split
  · rfl
  · rw [wrote_nothing]

theorem pushValue_eq (ready : w.Ready clear) (text : List Char) :
    pushValue text w = .ok ((), w.wrote text w.childValues) := by
  rw [pushValue, get_bind, ready.writes]
  rfl

theorem writeIndent_eq (ready : w.Ready clear) :
    ∃ gap, Gap clear gap ∧ writeIndent w = .ok ((), w.wrote gap w.childValues) := by
  have newline : Gap clear ('\n' :: w.indentString) := by
    intro isClear c member
    cases List.mem_cons.mp member with
    | inl head => rw [head]; rfl
    | inr later => exact ready.indentString isClear c later
  unfold writeIndent
  rw [get_bind]
  cases w.toStream with
  | true => exact ⟨_, newline, rfl⟩
  | false =>
      rw [if_neg Bool.false_ne_true]
      cases w.document.getLast? with
      | none => exact ⟨_, ready.indentString, rfl⟩
      | some last =>
          dsimp only
          by_cases space : last = ' '
          · refine ⟨[], gap_nil, ?_⟩
            rw [wrote_nothing, if_pos space]
            rfl
          · by_cases line : last = '\n'
            · refine ⟨_, ready.indentString, ?_⟩
              rw [if_neg space, if_neg (not_not.mpr line)]
              rfl
            · refine ⟨_, newline, ?_⟩
              rw [if_neg space, if_pos line]
              rfl

theorem writeWithIndent_eq (ready : w.Ready clear) (value : List Char) :
    ∃ gap, Gap clear gap ∧
      writeWithIndent value w = .ok ((), w.wrote (gap ++ value) w.childValues) := by
  obtain ⟨gap, blank, line⟩ := writeIndent_eq ready
  refine ⟨gap, blank, ?_⟩
  rw [writeWithIndent, bind_of_ok line, append_eq, wrote_wrote]
  rfl

theorem indent_eq : indent w = .ok ((), w.deeper) := rfl

theorem unindent_eq (text : List Char) (children : List (List Char)) :
    unindent (w.deeper.wrote text children) = .ok ((), w.wrote text children) := by
  have long : ¬(w.deeper.wrote text children).indentString.length <
      (w.deeper.wrote text children).indentation.length := by
    change ¬(w.indentString ++ w.indentation).length < w.indentation.length
    rw [List.length_append]
    omega
  have shorter : (w.indentString ++ w.indentation).take
      ((w.indentString ++ w.indentation).length - w.indentation.length) = w.indentString := by
    rw [List.length_append, Nat.add_sub_cancel, List.take_left]
  unfold unindent
  rw [get_bind, if_neg long]
  exact congrArg (fun indentString => Except.ok ((), { w.wrote text children with indentString }))
    shorter

/-! ## Comments -/

section comments
variable {comments : CommentsAt}

theorem Bare.child (bare : Bare clear comments) (index : Nat) :
    Bare clear (comments.child index) := fun isClear => by rw [bare isClear]; rfl

theorem writeCommentBeforeValue_eq (bare : Bare clear comments) (w : StyledWriter) :
    ∃ text, Gap clear text ∧
      writeCommentBeforeValue (comments []) w = .ok ((), w.wrote text w.childValues) := by
  unfold writeCommentBeforeValue
  cases before : (comments []).before with
  | none =>
      refine ⟨[], gap_nil, ?_⟩
      rw [wrote_nothing]
      rfl
  | some text =>
      refine ⟨_, fun isClear => ?_, append_eq _⟩
      rw [bare isClear] at before
      cases before

theorem writeCommentAfterValueOnSameLine_eq (bare : Bare clear comments) (w : StyledWriter) :
    ∃ text, Gap clear text ∧
      writeCommentAfterValueOnSameLine (comments []) w =
        .ok ((), w.wrote text w.childValues) := by
  have neither : clear → (comments []).afterOnSameLine = none ∧ (comments []).after = none :=
    fun isClear => by rw [bare isClear]; exact ⟨rfl, rfl⟩
  unfold writeCommentAfterValueOnSameLine
  cases sameLine : (comments []).afterOnSameLine with
  | none =>
      cases after : (comments []).after with
      | none =>
          refine ⟨[], gap_nil, ?_⟩
          rw [wrote_nothing]
          rfl
      | some text =>
          refine ⟨_, fun isClear => ?_, append_eq _⟩
          have absent := (neither isClear).2
          rw [after] at absent
          cases absent
  | some line =>
      have absent : ¬clear := fun isClear => by
        have absent := (neither isClear).1
        rw [sameLine] at absent
        cases absent
      dsimp only
      rw [bind_of_ok (append_eq _)]
      cases (comments []).after with
      | none => exact ⟨_, fun isClear => absurd isClear absent, rfl⟩
      | some text =>
          refine ⟨(' ' :: normalizeEOL line) ++ ('\n' :: normalizeEOL text ++ ['\n']),
            fun isClear => absurd isClear absent, ?_⟩
          dsimp only
          rw [append_eq, wrote_wrote]
          rfl

end comments

/-! ## Values without children -/

section leaves
variable {v : Value}

/-- A value that stands on the line of its array is pushed, unless it is too long to print.
Its own comments are not looked at. -/
def Pushed (clear : Prop) (double : Rat → Rat) (number : Value → Prop) (v : Value) : Prop :=
  (∃ text, (∀ comments, writeValue double comments v = pushValue text) ∧
      Laid clear double v text) ∨
    ∃ fault, (∀ comments, writeValue double comments v = throw fault) ∧
      Overruns double number fault

theorem count_pos {n : Nat} (few : n < 2 ^ 32) (positive : n ≠ 0) : UInt32.ofNat n > 0 := by
  refine UInt32.lt_iff_toNat_lt.mpr ?_
  rw [UInt32.toNat_ofNat_of_lt' few]
  exact Nat.pos_of_ne_zero positive

theorem leaf_pushed (rounding : Exact double) (bounded : Bounded clear double number)
    (shaped : v.Shaped number) (counted : Counted v) (leaf : hasChildren v = false) :
    Pushed clear double number v := by
  have fast : clear → FastWriter.Lays double false v := fun isClear =>
    FastWriter.writeValue_lays rounding (shaped.mono fun _ inside real same =>
      bounded isClear real (same ▸ inside))
  cases shaped with
  | nullValue => exact .inl ⟨_, fun _ => rfl, fun isClear => fast isClear _ rfl, .nullValue⟩
  | intValue int =>
      exact .inl ⟨_, fun _ => rfl, fun isClear => fast isClear _ rfl, .intValue int nofun⟩
  | uintValue uint =>
      exact .inl ⟨_, fun _ => rfl, fun isClear => fast isClear _ rfl, .uintValue uint nofun⟩
  | stringValue string noNul =>
      exact .inl ⟨_, fun _ => rfl, fun isClear => fast isClear _ rfl, .stringValue string noNul⟩
  | booleanValue bool =>
      exact .inl ⟨_, fun _ => rfl, fun isClear => fast isClear _ rfl, .booleanValue bool⟩
  | realValue real inside =>
      cases text : Double.valueToString double real with
      | error fault =>
          exact .inr ⟨fault, fun _ => by rw [writeValue, text], real, inside, text⟩
      | ok text' =>
          exact .inl ⟨text', fun _ => by rw [writeValue, text],
            fun isClear => fast isClear text' text, printable_real text⟩
  | arrayValue elements =>
      cases counted with
      | scalar _ noArray => exact absurd rfl (noArray elements)
      | arrayValue _ few =>
          have none : elements.length = 0 := by
            by_contra some
            have positive := count_pos few some
            have children : hasChildren (.arrayValue elements) =
              decide (UInt32.ofNat elements.length > 0) := rfl
            rw [children, decide_eq_true positive] at leaf
            cases leaf
          cases List.length_eq_zero_iff.mp none
          refine .inl ⟨_, fun _ => ?_, fun isClear => fast isClear _ rfl, .noElements⟩
          rw [writeValue, writeArrayValue]
          rfl
  | objectValue members =>
      cases counted with
      | scalar _ _ noObject => exact absurd rfl (noObject members)
      | objectValue _ few =>
          have none : members.length = 0 := by
            by_contra some
            have positive := count_pos few some
            have children : hasChildren (.objectValue members) =
              decide (UInt32.ofNat members.length > 0) := rfl
            rw [children, decide_eq_true positive] at leaf
            cases leaf
          cases List.length_eq_zero_iff.mp none
          refine .inl ⟨_, fun _ => ?_, fun isClear => fast isClear _ rfl, .noMembers⟩
          rw [writeValue]
          rfl

end leaves

/-! ## Arrays -/

/-- The texts lay out the elements. -/
abbrev Texts (clear : Prop) (double : Rat → Rat) (elements : List Value)
    (texts : List (List Char)) : Prop :=
  List.Forall₂ (Laid clear double) elements texts

def collecting (w : StyledWriter) (texts : List (List Char)) : StyledWriter :=
  { w with childValues := texts, addChildValues := true }

/-- The length of what was collected does not matter for what is collected. -/
theorem measure_meets (comments : CommentsAt) {elements : List Value}
    (leaves : ∀ v ∈ elements, Pushed clear double number v)
    (collected : List (List Char)) (lineLength : Nat) :
    Meets (Overruns double number)
      (measure double comments collected.length lineLength false elements)
      (w.collecting collected) fun _ w' =>
        ∃ texts, w' = w.collecting (collected ++ texts) ∧ Texts clear double elements texts := by
  induction elements generalizing collected lineLength with
  | nil =>
      rw [measure, meets_pure]
      exact ⟨[], by rw [List.append_nil], .nil⟩
  | cons v elements ih =>
      rw [measure, if_neg Bool.false_ne_true]
      cases leaves v List.mem_cons_self with
      | inr faulty =>
          obtain ⟨fault, throws, overruns⟩ := faulty
          rw [throws, meets_throw_bind]
          exact overruns
      | inl pushed =>
          obtain ⟨text, pushes, layout⟩ := pushed
          have push : pushValue text (w.collecting collected) =
            .ok ((), w.collecting (collected ++ [text])) := rfl
          have found : (w.collecting (collected ++ [text])).childValues[collected.length]? =
            some text := List.getElem?_concat_length ..
          have length : collected.length + 1 = (collected ++ [text]).length := by
            rw [List.length_append, List.length_singleton]
          rw [pushes]
          refine .bind_of_run push ?_
          rw [meets_get_bind, found, length]
          refine (ih (fun u member => leaves u (List.mem_cons_of_mem v member)) _ _).mono ?_
          rintro total w' ⟨texts, rfl, laid⟩
          exact ⟨text :: texts, by rw [List.append_assoc, List.singleton_append], .cons layout laid⟩

theorem isMultineArray_meets (rounding : Exact double) (bounded : Bounded clear double number)
    (comments : CommentsAt) {elements : List Value} (shaped : ∀ v ∈ elements, v.Shaped number)
    (counted : ∀ v ∈ elements, Counted v) (ready : w.Ready clear) (lineLength : Nat) :
    Meets (Overruns double number)
      (isMultineArray elements (measure double comments 0 lineLength false elements))
      w fun multi w' => ∃ texts, w' = w.wrote [] texts ∧
        (texts = [] ∧ multi = true ∨ Texts clear double elements texts) := by
  have same : ∀ texts, { w.collecting texts with addChildValues := false } = w.wrote [] texts := by
    intro texts
    rw [wrote, List.append_nil, ← ready.writes]
    rfl
  rw [isMultineArray, meets_modify_bind]
  split
  · rw [meets_pure]
    refine ⟨[], ?_, .inl ⟨rfl, rfl⟩⟩
    rw [wrote, List.append_nil]
  · rename_i short
    have leaves : ∀ v ∈ elements, Pushed clear double number v := by
      intro v member
      refine leaf_pushed rounding bounded (shaped v member) (counted v member) ?_
      by_contra children
      exact short (.inr (List.any_eq_true.mpr ⟨v, member, by simpa using children⟩))
    rw [meets_modify_bind]
    refine (measure_meets comments leaves [] lineLength).bind ?_
    rintro total w' ⟨texts, rfl, laid⟩
    rw [meets_modify_bind, meets_pure]
    exact ⟨texts, same texts, .inr laid⟩

/-- What stands between the brackets of an array, up to blanks around it. -/
structure Body (clear : Prop) (double : Rat → Rat) (elements : List Value) (text : List Char) :
    Prop where
  layout : clear → ∀ before after, Blank before → Blank after → Layout Fits
    (.elements (Value.writtenElements double elements)) (before ++ (text ++ (after ++ [']'])))
  printable : ∀ v ∈ elements, Printable double v

theorem body_last {v : Value} {gap text back : List Char} (blank : Gap clear gap)
    (laid : Laid clear double v text) (blank' : Gap clear back) :
    Body clear double [v] (gap ++ (text ++ back)) where
  layout isClear before after starts ends := by
    have element := Layout.lastElement (.blank _ (blank_append starts (blank isClear)))
      (laid.layout isClear) (blank_append (blank' isClear) ends)
    change Layout Fits (.elements [v.written double]) _
    simpa using element
  printable u member := List.mem_singleton.mp member ▸ laid.printable

theorem body_more {u v : Value} {elements : List Value} {gap text back rest : List Char}
    (blank : Gap clear gap) (laid : Laid clear double v text) (blank' : Gap clear back)
    (more : Body clear double (u :: elements) rest) :
    Body clear double (v :: u :: elements) (gap ++ (text ++ ',' :: (back ++ rest))) where
  layout isClear before after starts ends := by
    have element := Layout.element (.blank _ (blank_append starts (blank isClear)))
      (laid.layout isClear) FastWriter.blank_nil
      (more.layout isClear back after (blank' isClear) ends)
    change Layout Fits (.elements (v.written double :: Value.writtenElements double _)) _
    simpa using element
  printable t member := by
    cases List.mem_cons.mp member with
    | inl head => exact head ▸ laid.printable
    | inr later => exact more.printable t later

/-! ### On one line -/

theorem writeChildRow_step {index : Nat} {child : List Char} (remaining : Nat)
    (found : w.childValues[index]? = some child) :
    writeChildRow index (remaining + 1) w = writeChildRow (index + 1) remaining
      (w.wrote ((if index > 0 then [',', ' '] else []) ++ child) w.childValues) := by
  rw [writeChildRow]
  split
  · have comma := append_eq (w := w) ", ".toList
    rw [bind_of_ok comma]
    dsimp only
    rw [get_bind]
    have kept : (w.wrote ", ".toList w.childValues).childValues[index]? = some child := found
    rw [kept]
    dsimp only
    rw [bind_of_ok (append_eq child), wrote_wrote]
    rfl
  · dsimp only
    rw [get_bind, found]
    dsimp only
    rw [bind_of_ok (append_eq child)]
    rfl

theorem gap_space (p : Prop) [Decidable p] : Gap clear (if p then [' '] else []) := by
  intro _
  split
  · exact blank_space
  · exact FastWriter.blank_nil

theorem writeChildRow_eq {v : Value} {elements : List Value} {texts : List (List Char)}
    (laid : Texts clear double (v :: elements) texts) (collected : List (List Char))
    (kept : w.childValues = collected ++ texts) :
    ∃ text, writeChildRow collected.length texts.length w =
      .ok ((), w.wrote ((if collected.length > 0 then [','] else []) ++ text) w.childValues) ∧
        Body clear double (v :: elements) text := by
  induction elements generalizing v texts collected w with
  | nil =>
      obtain ⟨text, _, layout, ⟨⟩, rfl⟩ := List.forall₂_cons_left_iff.mp laid
      have found : w.childValues[collected.length]? = some text := by
        rw [kept, List.getElem?_concat_length]
      refine ⟨(if collected.length > 0 then [' '] else []) ++ (text ++ []), ?_,
        body_last (gap_space _) layout gap_nil⟩
      rw [List.length_singleton, writeChildRow_step 0 found, List.append_nil]
      split <;> rfl
  | cons u elements ih =>
      obtain ⟨text, texts', layout, laid', rfl⟩ := List.forall₂_cons_left_iff.mp laid
      have found : w.childValues[collected.length]? = some text := by
        rw [kept, List.getElem?_append_right (Nat.le_refl _), Nat.sub_self]
        rfl
      have split : w.childValues = (collected ++ [text]) ++ texts' := by
        rw [kept, List.append_assoc, List.singleton_append]
      have length : (collected ++ [text]).length = collected.length + 1 := by
        rw [List.length_append, List.length_singleton]
      obtain ⟨rest, row, more⟩ := ih laid' (collected ++ [text]) (w := w.wrote
        ((if collected.length > 0 then [',', ' '] else []) ++ text) w.childValues) split
      rw [length, if_pos (Nat.succ_pos _)] at row
      refine ⟨(if collected.length > 0 then [' '] else []) ++ (text ++ ',' :: ([] ++ rest)), ?_,
        body_more (gap_space _) layout gap_nil more⟩
      rw [List.length_cons, writeChildRow_step _ found, row, wrote_wrote]
      by_cases later : collected.length > 0
      · simp [later, StyledWriter.wrote]
      · simp [later, StyledWriter.wrote]

/-! ### A line each -/

section lines
variable {comments : CommentsAt}

/-- The comments of an element stand before its line and behind its comma. -/
theorem writeChildLines_step (bare : Bare clear comments) (ready : w.Ready clear) {index : Nat}
    {child : List Char} (remaining : Nat) (found : w.childValues[index]? = some child) :
    ∃ gap back, Gap clear gap ∧ Gap clear back ∧
      writeChildLines comments index (remaining + 1) w =
        writeChildLines comments (index + 1) remaining (w.wrote
          (gap ++ (child ++ ((if remaining ≠ 0 then [','] else []) ++ back))) w.childValues) := by
  obtain ⟨front, blank, before⟩ := writeCommentBeforeValue_eq (bare.child index) w
  obtain ⟨gap, blank', line⟩ := writeWithIndent_eq (ready.wrote front w.childValues) child
  obtain ⟨back, blank'', after⟩ := writeCommentAfterValueOnSameLine_eq (bare.child index)
    (w.wrote ((front ++ (gap ++ child)) ++ if remaining ≠ 0 then [','] else []) w.childValues)
  refine ⟨front ++ gap, back, Gap.append blank blank', blank'', ?_⟩
  have found' : (w.wrote front w.childValues).childValues[index]? = some child := found
  rw [writeChildLines, bind_of_ok before]
  dsimp only
  rw [get_bind, found']
  dsimp only
  rw [bind_of_ok line, wrote_wrote, comma_eq, wrote_wrote]
  refine (bind_of_ok after _).trans ?_
  rw [wrote_wrote]
  simp [StyledWriter.wrote]

theorem writeChildLines_eq {v : Value} {elements : List Value} {texts : List (List Char)}
    (laid : Texts clear double (v :: elements) texts) (collected : List (List Char))
    (bare : Bare clear comments) (ready : w.Ready clear)
    (kept : w.childValues = collected ++ texts) :
    ∃ text, writeChildLines comments collected.length texts.length w =
      .ok ((), w.wrote text w.childValues) ∧ Body clear double (v :: elements) text := by
  induction elements generalizing v texts collected w with
  | nil =>
      obtain ⟨text, _, layout, ⟨⟩, rfl⟩ := List.forall₂_cons_left_iff.mp laid
      have found : w.childValues[collected.length]? = some text := by
        rw [kept, List.getElem?_concat_length]
      obtain ⟨gap, back, blank, blank', step⟩ := writeChildLines_step bare ready 0 found
      refine ⟨gap ++ (text ++ back), ?_, body_last blank layout blank'⟩
      rw [List.length_singleton, step, if_neg (not_not.mpr rfl), List.nil_append]
      rfl
  | cons u elements ih =>
      obtain ⟨text, texts', layout, laid', rfl⟩ := List.forall₂_cons_left_iff.mp laid
      have found : w.childValues[collected.length]? = some text := by
        rw [kept, List.getElem?_append_right (Nat.le_refl _), Nat.sub_self]
        rfl
      have split : w.childValues = (collected ++ [text]) ++ texts' := by
        rw [kept, List.append_assoc, List.singleton_append]
      have length : (collected ++ [text]).length = collected.length + 1 := by
        rw [List.length_append, List.length_singleton]
      have later : texts'.length ≠ 0 := by
        rw [← laid'.length_eq]
        exact Nat.succ_ne_zero _
      obtain ⟨gap, back, blank, blank', step⟩ := writeChildLines_step bare ready texts'.length found
      rw [if_pos later] at step
      obtain ⟨rest, lines, more⟩ := ih laid' (collected ++ [text]) (ready.wrote
        (gap ++ (text ++ ([','] ++ back))) w.childValues) split
      refine ⟨gap ++ (text ++ ',' :: (back ++ rest)), ?_, body_more blank layout blank' more⟩
      rw [List.length_cons, step, ← length, lines, wrote_wrote]
      simp [StyledWriter.wrote]

end lines

/-! ## Values -/

/-- A value is written as blanks and a layout of it, where the text is clear. -/
def Prints (clear : Prop) (double : Rat → Rat) (number : Value → Prop) (v : Value) : Prop :=
  ∀ (comments : CommentsAt) (w : StyledWriter), Bare clear comments → w.Ready clear →
    Meets (Overruns double number) (writeValue double comments v) w fun _ w' =>
      ∃ gap text children, w' = w.wrote (gap ++ text) children ∧ Gap clear gap ∧
        Laid clear double v text

theorem pushed_prints {v : Value} (pushed : Pushed clear double number v) :
    Prints clear double number v := by
  intro comments w bare ready
  cases pushed with
  | inl pushed =>
      obtain ⟨text, pushes, layout⟩ := pushed
      rw [pushes]
      exact .of_run (pushValue_eq ready text) ⟨[], text, _, rfl, gap_nil, layout⟩
  | inr faulty =>
      obtain ⟨fault, throws, overruns⟩ := faulty
      rw [throws, meets_throw]
      exact overruns

section collections
variable {comments : CommentsAt}

/-- Behind a value of a collection stand its comma and its comments. -/
theorem after_meets (bare : Bare clear comments) (more : Prop) [Decidable more]
    {rest : Writing Unit} {goal : Unit → StyledWriter → Prop}
    (goesOn : ∀ back, Gap clear back → Meets (Overruns double number) rest
      (w.wrote ((if more then [','] else []) ++ back) w.childValues) goal) :
    Meets (Overruns double number) (do
      if more then append [',']
      writeCommentAfterValueOnSameLine (comments [])
      rest) w goal := by
  obtain ⟨back, blank, after⟩ := writeCommentAfterValueOnSameLine_eq bare
    (w.wrote (if more then [','] else []) w.childValues)
  rw [Meets, comma_eq]
  refine Meets.bind_of_run after ?_
  rw [wrote_wrote]
  exact goesOn back blank

theorem writeElements_meets {v : Value} {elements : List Value}
    (each : ∀ u ∈ v :: elements, Prints clear double number u) (bare : Bare clear comments)
    (index : Nat) (ready : w.Ready clear) :
    Meets (Overruns double number) (writeElements double comments index (v :: elements)) w
      fun _ w' => ∃ text children, w' = w.wrote text children ∧
        Body clear double (v :: elements) text := by
  induction elements generalizing v w index with
  | nil =>
      obtain ⟨front, blank, before⟩ := writeCommentBeforeValue_eq (bare.child index) w
      obtain ⟨gap, blank', line⟩ := writeIndent_eq (ready.wrote front w.childValues)
      rw [writeElements]
      refine .bind_of_run before (.bind_of_run line ?_)
      refine (each v List.mem_cons_self _ _ (bare.child index)
        ((ready.wrote _ _).wrote _ _)).bind ?_
      rintro ⟨⟩ _ ⟨gap', text, children, rfl, blank'', layout⟩
      refine after_meets (bare.child index) _ fun back ends => ?_
      refine .of_run rfl ⟨((front ++ gap) ++ gap') ++ (text ++ back), children, ?_,
        body_last ((Gap.append blank blank').append blank'') layout ends⟩
      simp [wrote_wrote]
  | cons u elements ih =>
      obtain ⟨front, blank, before⟩ := writeCommentBeforeValue_eq (bare.child index) w
      obtain ⟨gap, blank', line⟩ := writeIndent_eq (ready.wrote front w.childValues)
      rw [writeElements]
      refine .bind_of_run before (.bind_of_run line ?_)
      refine (each v List.mem_cons_self _ _ (bare.child index)
        ((ready.wrote _ _).wrote _ _)).bind ?_
      rintro ⟨⟩ _ ⟨gap', text, children, rfl, blank'', layout⟩
      refine after_meets (bare.child index) _ fun back ends => ?_
      refine (ih (fun t member => each t (List.mem_cons_of_mem v member)) (index + 1)
        ((((ready.wrote _ _).wrote _ _).wrote _ _).wrote _ _)).mono ?_
      rintro ⟨⟩ _ ⟨rest, children', rfl, more⟩
      refine ⟨((front ++ gap) ++ gap') ++ (text ++ ',' :: (back ++ rest)), children', ?_,
        body_more ((Gap.append blank blank').append blank'') layout ends more⟩
      simp [wrote_wrote]

/-- What stands between the brackets of an object, up to blanks around it. -/
structure MemberBody (clear : Prop) (double : Rat → Rat) (members : List (String × Value))
    (text : List Char) : Prop where
  layout : clear → ∀ before after, Blank before → Blank after → Layout Fits
    (.members (Value.writtenMembers double members)) (before ++ (text ++ (after ++ ['}'])))
  printable : ∀ m ∈ members, Printable double m.2

/-- The text of one member, with a gap in front. -/
def memberText (gap name value : List Char) : List Char :=
  gap ++ ('"' :: (name.flatMap escape ++ ['"']) ++ ([' ', ':', ' '] ++ value))

theorem memberBody_last {name : String} {v : Value} {gap gap' text back : List Char}
    (noNul : '\x00' ∉ name.toList) (blank : Gap clear gap) (blank' : Gap clear gap')
    (laid : Laid clear double v text) (blank'' : Gap clear back) :
    MemberBody clear double [(name, v)] (memberText gap name.toList (gap' ++ (text ++ back))) where
  layout isClear before after starts ends := by
    have member := Layout.lastMember (.blank _ (blank_append starts (blank isClear)))
      (flatMap_quoted noNul) blank_space (.blank _ (blank_append blank_space (blank' isClear)))
      (laid.layout isClear) (.blank _ (blank_append (blank'' isClear) ends))
    change Layout Fits (.members [(name.toList, v.written double)]) _
    simpa [memberText] using member
  printable m member := List.mem_singleton.mp member ▸ laid.printable

theorem memberBody_more {name : String} {v : Value} {m : String × Value}
    {members : List (String × Value)} {gap gap' text back rest : List Char}
    (noNul : '\x00' ∉ name.toList) (blank : Gap clear gap) (blank' : Gap clear gap')
    (laid : Laid clear double v text) (blank'' : Gap clear back)
    (more : MemberBody clear double (m :: members) rest) :
    MemberBody clear double ((name, v) :: m :: members)
      (memberText gap name.toList (gap' ++ text) ++ ',' :: (back ++ rest)) where
  layout isClear before after starts ends := by
    have member := Layout.member (.blank _ (blank_append starts (blank isClear)))
      (flatMap_quoted noNul) blank_space (.blank _ (blank_append blank_space (blank' isClear)))
      (laid.layout isClear) FastWriter.filler_nil
      (more.layout isClear back after (blank'' isClear) ends)
    change Layout Fits (.members ((name.toList, v.written double) ::
      Value.writtenMembers double (m :: members))) _
    simpa [memberText] using member
  printable n member := by
    cases List.mem_cons.mp member with
    | inl head => exact head ▸ laid.printable
    | inr later => exact more.printable n later

theorem writeMembers_meets {m : String × Value} {members : List (String × Value)}
    (names : ∀ n ∈ m :: members, '\x00' ∉ n.1.toList)
    (each : ∀ n ∈ m :: members, Prints clear double number n.2) (bare : Bare clear comments)
    (index : Nat) (ready : w.Ready clear) :
    Meets (Overruns double number) (writeMembers double comments index (m :: members)) w
      fun _ w' => ∃ text children, w' = w.wrote text children ∧
        MemberBody clear double (m :: members) text := by
  induction members generalizing m w index with
  | nil =>
      obtain ⟨name, v⟩ := m
      obtain ⟨front, blank, before⟩ := writeCommentBeforeValue_eq (bare.child index) w
      obtain ⟨gap, blank', line⟩ := writeWithIndent_eq (ready.wrote front w.childValues)
        (valueToQuotedString name)
      rw [writeMembers]
      refine .bind_of_run before (.bind_of_run line (.bind_of_run (append_eq _) ?_))
      refine (each _ List.mem_cons_self _ _ (bare.child index)
        (((ready.wrote _ _).wrote _ _).wrote _ _)).bind ?_
      rintro ⟨⟩ _ ⟨gap', text, children, rfl, blank'', layout⟩
      refine after_meets (bare.child index) _ fun back ends => ?_
      refine .of_run rfl ⟨memberText (front ++ gap) name.toList (gap' ++ (text ++ back)), children,
        ?_, memberBody_last (names _ List.mem_cons_self) (Gap.append blank blank') blank'' layout
          ends⟩
      simp [wrote_wrote, memberText, valueToQuotedString_eq]
  | cons n members ih =>
      obtain ⟨name, v⟩ := m
      obtain ⟨front, blank, before⟩ := writeCommentBeforeValue_eq (bare.child index) w
      obtain ⟨gap, blank', line⟩ := writeWithIndent_eq (ready.wrote front w.childValues)
        (valueToQuotedString name)
      rw [writeMembers]
      refine .bind_of_run before (.bind_of_run line (.bind_of_run (append_eq _) ?_))
      refine (each _ List.mem_cons_self _ _ (bare.child index)
        (((ready.wrote _ _).wrote _ _).wrote _ _)).bind ?_
      rintro ⟨⟩ _ ⟨gap', text, children, rfl, blank'', layout⟩
      refine after_meets (bare.child index) _ fun back ends => ?_
      refine (ih (fun t member => names t (List.mem_cons_of_mem _ member))
        (fun t member => each t (List.mem_cons_of_mem _ member)) (index + 1)
        (((((ready.wrote _ _).wrote _ _).wrote _ _).wrote _ _).wrote _ _)).mono ?_
      rintro ⟨⟩ _ ⟨rest, children', rfl, more⟩
      refine ⟨memberText (front ++ gap) name.toList (gap' ++ text) ++ ',' :: (back ++ rest),
        children', ?_, memberBody_more (names _ List.mem_cons_self) (Gap.append blank blank')
          blank'' layout ends more⟩
      simp [wrote_wrote, memberText, valueToQuotedString_eq]

end collections

/-- The lines of a collection are further in; its bracket is closed where they began. -/
theorem close_meets {body : Writing Unit} {good : List Char → Prop} {front : List Char}
    {children : List (List Char)} (closing : Char) (ready : w.Ready clear)
    (inside : Meets (Overruns double number) body (w.deeper.wrote front children) fun _ w' =>
      ∃ text children', w' = (w.deeper.wrote front children).wrote text children' ∧ good text) :
    Meets (Overruns double number) (do body; unindent; writeWithIndent [closing])
      (w.deeper.wrote front children) fun _ w' => ∃ text after children',
        w' = w.wrote (front ++ (text ++ (after ++ [closing]))) children' ∧ Gap clear after ∧
          good text := by
  refine inside.bind ?_
  rintro ⟨⟩ _ ⟨text, children', rfl, isGood⟩
  rw [wrote_wrote]
  refine .bind_of_run (unindent_eq _ _) ?_
  obtain ⟨after, blank, line⟩ :=
    writeWithIndent_eq (ready.wrote (front ++ text) children') [closing]
  refine .of_run line ⟨text, after, children', ?_, blank, isGood⟩
  rw [wrote_wrote, List.append_assoc]
  rfl

theorem writeArrayValue_meets (rounding : Exact double) (bounded : Bounded clear double number)
    {comments : CommentsAt} {v : Value} {elements : List Value}
    (shaped : ∀ u ∈ v :: elements, u.Shaped number) (counted : ∀ u ∈ v :: elements, Counted u)
    (each : ∀ u ∈ v :: elements, Prints clear double number u) (bare : Bare clear comments)
    (ready : w.Ready clear) (lineLength : Nat) :
    Meets (Overruns double number) (writeArrayValue comments (v :: elements)
      (measure double comments 0 lineLength false (v :: elements))
      (writeElements double comments 0 (v :: elements))) w
      fun _ w' => ∃ gap text children, w' = w.wrote (gap ++ text) children ∧ Gap clear gap ∧
        Laid clear double (.arrayValue (v :: elements)) text := by
  have some : (v :: elements).length ≠ 0 := Nat.succ_ne_zero _
  rw [writeArrayValue, if_neg some]
  refine (isMultineArray_meets rounding bounded comments shaped counted ready lineLength).bind ?_
  rintro multi _ ⟨texts, rfl, which⟩
  cases multi with
  | true =>
      rw [if_pos rfl]
      obtain ⟨gap, blank, line⟩ := writeWithIndent_eq (ready.wrote [] texts) ['[']
      refine .bind_of_run line (.bind_of_run indent_eq ?_)
      have inner : ((w.wrote [] texts).wrote (gap ++ ['[']) texts).deeper =
          w.deeper.wrote (gap ++ ['[']) texts := congrArg StyledWriter.deeper (wrote_wrote ..)
      have ready' := ready.deeper.wrote (gap ++ ['[']) texts
      have ends : ∀ (_ : PUnit) w', (∃ text after children, w' = w.wrote
          ((gap ++ ['[']) ++ (text ++ (after ++ [']']))) children ∧ Gap clear after ∧
            Body clear double (v :: elements) text) →
          ∃ gap text children, w' = w.wrote (gap ++ text) children ∧ Gap clear gap ∧
            Laid clear double (.arrayValue (v :: elements)) text := by
        rintro _ _ ⟨text, after, children, rfl, ends, body⟩
        refine ⟨gap, '[' :: (text ++ (after ++ [']'])), children, by simp, blank, fun isClear => ?_,
          .arrayValue _ body.printable⟩
        exact .array (body.layout isClear [] after FastWriter.blank_nil (ends isClear))
      change Meets _ _ ((w.wrote [] texts).wrote (gap ++ ['[']) texts).deeper _
      rw [inner, meets_get_bind]
      dsimp only
      cases which with
      | inl none =>
          obtain ⟨rfl, _⟩ := none
          have collected : ¬(!(w.deeper.wrote (gap ++ ['[']) []).childValues.isEmpty) = true :=
            Bool.false_ne_true
          rw [if_neg collected]
          exact (close_meets ']' ready (writeElements_meets each bare 0 ready')).mono ends
      | inr laid =>
          have first := laid
          obtain ⟨text, rest, _, _, rfl⟩ := List.forall₂_cons_left_iff.mp first
          have collected : (!(w.deeper.wrote (gap ++ ['[']) (text :: rest)).childValues.isEmpty) =
            true := rfl
          obtain ⟨body, lines, isBody⟩ := writeChildLines_eq laid [] bare ready' rfl
          rw [List.length_nil, ← laid.length_eq] at lines
          rw [if_pos collected]
          exact (close_meets ']' ready (.of_run lines ⟨body, _, rfl, isBody⟩)).mono ends
  | false =>
      have laid := which.resolve_left fun none => Bool.false_ne_true none.2
      have counts : ¬(w.wrote [] texts).childValues.length ≠ (v :: elements).length :=
        not_not.mpr laid.length_eq.symm
      rw [if_neg Bool.false_ne_true, meets_get_bind]
      dsimp only
      rw [if_neg counts]
      refine .bind_of_run (append_eq _) ?_
      obtain ⟨text, row, body⟩ := writeChildRow_eq laid []
        (w := (w.wrote [] texts).wrote "[ ".toList texts) rfl
      rw [List.length_nil, ← laid.length_eq] at row
      refine .bind_of_run row (.of_run (append_eq _) ?_)
      refine ⟨[], '[' :: ([' '] ++ (text ++ ([' '] ++ [']']))), texts, ?_, gap_nil,
        fun isClear => ?_, .arrayValue _ body.printable⟩
      swap
      · exact .array (body.layout isClear [' '] [' '] blank_space blank_space)
      simp [wrote]

theorem writeValue_prints (rounding : Exact double) (bounded : Bounded clear double number)
    {v : Value} (shaped : v.Shaped number) (counted : Counted v) :
    Prints clear double number v := by
  induction shaped with
  | nullValue => exact pushed_prints (leaf_pushed rounding bounded .nullValue counted rfl)
  | intValue int inside =>
      exact pushed_prints (leaf_pushed rounding bounded (.intValue int inside) counted rfl)
  | uintValue uint inside =>
      exact pushed_prints (leaf_pushed rounding bounded (.uintValue uint inside) counted rfl)
  | realValue real inside =>
      exact pushed_prints (leaf_pushed rounding bounded (.realValue real inside) counted rfl)
  | stringValue string noNul =>
      exact pushed_prints (leaf_pushed rounding bounded (.stringValue string noNul) counted rfl)
  | booleanValue bool =>
      exact pushed_prints (leaf_pushed rounding bounded (.booleanValue bool) counted rfl)
  | arrayValue elements each ih =>
      cases elements with
      | nil => exact pushed_prints (leaf_pushed rounding bounded .noElements counted rfl)
      | cons v elements =>
          cases counted with
          | scalar _ noArray => exact absurd rfl (noArray _)
          | arrayValue _ _ counted =>
              intro comments w bare ready
              rw [writeValue]
              exact writeArrayValue_meets rounding bounded each counted
                (fun u member => ih u member (counted u member)) bare ready _
  | objectValue members sorted names each ih =>
      cases members with
      | nil => exact pushed_prints (leaf_pushed rounding bounded .noMembers counted rfl)
      | cons m members =>
          cases counted with
          | scalar _ _ noObject => exact absurd rfl (noObject _)
          | objectValue _ _ counted =>
              intro comments w bare ready
              obtain ⟨gap, blank, line⟩ := writeWithIndent_eq ready ['{']
              have inside := writeMembers_meets names
                (fun n member => ih n member (counted n member)) bare 0
                (ready.deeper.wrote (gap ++ ['{']) w.childValues)
              have some : ¬(m :: members).isEmpty = true := Bool.false_ne_true
              rw [writeValue, if_neg some]
              refine .bind_of_run line (.bind_of_run indent_eq ?_)
              refine (close_meets '}' ready inside).mono ?_
              rintro ⟨⟩ _ ⟨text, after, children, rfl, ends, body⟩
              refine ⟨gap, '{' :: (text ++ (after ++ ['}'])), children, by simp, blank,
                fun isClear => ?_, .objectValue _ sorted names body.printable⟩
              exact .object (body.layout isClear [] after FastWriter.blank_nil (ends isClear))

/-- What a styled writer writes for a value, or why it does not. -/
theorem write_lays (rounding : Exact double) (bounded : Bounded clear double number) {v : Value}
    (shaped : v.Shaped number) (counted : Counted v) (toStream : Bool) {indentation : List Char}
    (blank : Gap clear indentation) {comments : CommentsAt} (bare : Bare clear comments) :
    match write double toStream indentation comments v with
    | .ok document => ∃ gap text back, document = gap ++ (text ++ back) ++ ['\n'] ∧
        Gap clear gap ∧ Gap clear back ∧ Laid clear double v text
    | .error fault => Overruns double number fault := by
  have meets : Meets (Overruns double number) (do
      writeCommentBeforeValue (comments [])
      writeValue double comments v
      writeCommentAfterValueOnSameLine (comments [])
      append ['\n'] : Writing Unit) ⟨[], [], [], false, indentation, toStream⟩ fun _ w' =>
        ∃ gap text back, w'.document = gap ++ (text ++ back) ++ ['\n'] ∧ Gap clear gap ∧
          Gap clear back ∧ Laid clear double v text := by
    obtain ⟨front, ahead, before⟩ := writeCommentBeforeValue_eq bare
      ⟨[], [], [], false, indentation, toStream⟩
    refine .bind_of_run before ?_
    refine (writeValue_prints rounding bounded shaped counted comments _ bare
      (Ready.wrote ⟨gap_nil, blank, rfl⟩ front [])).bind ?_
    rintro ⟨⟩ _ ⟨gap, text, children, rfl, blank', laid⟩
    rw [wrote_wrote]
    obtain ⟨back, behind, after⟩ := writeCommentAfterValueOnSameLine_eq bare
      (StyledWriter.wrote ⟨[], [], [], false, indentation, toStream⟩ (front ++ (gap ++ text))
        children)
    refine .bind_of_run after (.of_run (append_eq _) ?_)
    refine ⟨front ++ gap, text, back, ?_, ahead.append blank', behind, laid⟩
    simp [wrote]
  unfold write
  dsimp only
  rw [Meets] at meets
  split at meets
  · rename_i outcome w' result
    rw [result]
    exact meets
  · rename_i fault result
    rw [result]
    exact meets

end StyledWriter
end AsyncPing
