import AsyncPing.Metatheory.StyledWriterText

/-!
Whatever one of the writers has written is read back as the value it was written for,
with its numbers rounded as they are printed, unless comments or infinities stand in it; and
a writer fails for a double that is too long to print, and for nothing else.
-/
namespace AsyncPing
open JsonText Reader
open StyledWriter (Gap Bare Bounded gap_nil)

/-- What one of the writers makes of a value and of its comments, which the fast writer does
not print. -/
inductive WrittenBy (double : Rat → Rat) (comments : CommentsAt) (v : Value) :
    Except WriterFault (List Char) → Prop
  | fast (yaml : Bool) : WrittenBy double comments v (FastWriter.write double yaml v)
  | styled (toStream : Bool) (indentation : List Char) (blank : Blank indentation) :
      WrittenBy double comments v (StyledWriter.write double toStream indentation comments v)
  | toString : WrittenBy double comments v (JsonValue.toString double v)
  | toFormatString : WrittenBy double comments v (JsonValue.toFormatString double comments v)

section written
variable {clear : Prop} {double : Rat → Rat} {number : Value → Prop} {comments : CommentsAt}
  {v : Value} {outcome : Except WriterFault (List Char)}

/-- A layout of the value between blanks, where the text is clear, or why there is none. -/
def Lasts (clear : Prop) (double : Rat → Rat) (number : Value → Prop) (v : Value) :
    Except WriterFault (List Char) → Prop
  | .ok document => ∃ gap text rest, document = gap ++ (text ++ rest) ∧ Gap clear gap ∧
      (clear → Ends rest) ∧ Laid clear double v text
  | .error fault => Overruns double number fault

theorem trimmed_newline (text : List Char) : JsonValue.trimmed (text ++ ['\n']) = text := by
  rw [JsonValue.trimmed, List.getLast?_concat, if_pos rfl, List.dropLast_concat]

theorem ends_newline {back : List Char} (blank : Blank back) : Ends (back ++ ['\n']) :=
  ends_blank blank rfl []

theorem ends_gap {back : List Char} (blank : Blank back) : Ends back := by
  intro c head
  refine ends_newline blank c ?_
  cases back with
  | nil => cases head
  | cons => exact head

theorem fast_lasts (rounding : Exact double) (bounded : Bounded clear double number)
    (shaped : v.Shaped number) (yaml : Bool) :
    match FastWriter.write double yaml v with
    | .ok document => ∃ text, document = text ++ ['\n'] ∧ Laid clear double v text
    | .error fault => Overruns double number fault := by
  have faults := @FastWriter.writeValue_faults double yaml number v shaped
  have lays : clear → FastWriter.Lays double yaml v := fun isClear =>
    FastWriter.writeValue_lays rounding (shaped.mono fun _ inside real same =>
      bounded isClear real (same ▸ inside))
  rw [FastWriter.write]
  cases text : FastWriter.writeValue double yaml v with
  | error fault => rwa [text] at faults
  | ok text' =>
      rw [text] at faults
      exact ⟨text', rfl, fun isClear => lays isClear text' text, faults⟩

/-- All the writers together. -/
theorem WrittenBy.lasts (written : WrittenBy double comments v outcome) (rounding : Exact double)
    (bounded : Bounded clear double number) (bare : Bare clear comments)
    (shaped : v.Shaped number) (counted : Counted v) : Lasts clear double number v outcome := by
  cases written with
  | fast yaml =>
      have lasts := fast_lasts rounding bounded shaped yaml
      cases result : FastWriter.write double yaml v with
      | error fault => rwa [result] at lasts
      | ok document =>
          rw [result] at lasts
          obtain ⟨text, rfl, laid⟩ := lasts
          exact ⟨[], text, ['\n'], rfl, gap_nil, fun _ => ends_newline FastWriter.blank_nil, laid⟩
  | styled toStream indentation blank =>
      have lasts := StyledWriter.write_lays rounding bounded shaped counted toStream
        (fun _ => blank) bare
      cases result : StyledWriter.write double toStream indentation comments v with
      | error fault => rwa [result] at lasts
      | ok document =>
          rw [result] at lasts
          obtain ⟨gap, text, back, rfl, ahead, behind, laid⟩ := lasts
          refine ⟨gap, text, back ++ ['\n'], by simp, ahead, fun isClear => ?_, laid⟩
          exact ends_newline (behind isClear)
  | toString =>
      have lasts := fast_lasts rounding bounded shaped false
      rw [JsonValue.toString]
      cases result : FastWriter.write double false v with
      | error fault => rwa [result] at lasts
      | ok document =>
          rw [result] at lasts
          obtain ⟨text, rfl, laid⟩ := lasts
          refine ⟨[], text, [], ?_, gap_nil, nofun, laid⟩
          rw [trimmed_newline, List.append_nil]
          rfl
  | toFormatString =>
      have indentation : Blank [' ', ' ', ' '] := by
        intro c member
        rw [List.eq_of_mem_replicate (n := 3) member]
        rfl
      have lasts := StyledWriter.write_lays rounding bounded shaped counted false
        (fun _ => indentation) bare
      rw [JsonValue.toFormatString]
      cases result : StyledWriter.write double false [' ', ' ', ' '] comments v with
      | error fault => rwa [result] at lasts
      | ok document =>
          rw [result] at lasts
          obtain ⟨gap, text, back, rfl, ahead, behind, laid⟩ := lasts
          refine ⟨gap, text, back, ?_, ahead, fun isClear => ends_gap (behind isClear), laid⟩
          exact trimmed_newline (gap ++ (text ++ back))

theorem Lasts.reads {document : List Char} (lasts : Lasts True double number v (.ok document))
    (rounding : Exact double) (shaped : v.Shaped number) (root : Value) (collectComments : Bool) :
    ∃ v', Reader.parse double document root collectComments = .ok (true, v', []) ∧
      v'.json = v.json.mapNumbers fun real => .read double (real.rounded double).printed := by
  obtain ⟨gap, text, rest, rfl, blank, ends, laid⟩ := lasts
  obtain ⟨v', parsed, json⟩ := parse_layout root collectComments rounding (laid.layout trivial)
    (.blank gap (blank trivial)) (ends trivial)
  refine ⟨v', parsed, json.trans ?_⟩
  exact Value.normal_mapNumbers double (fun real => (real.rounded double).printed) shaped

theorem Lasts.long {fault : WriterFault} (lasts : Lasts clear double number v (.error fault)) :
    ∃ real : Double, number (.realValue real) ∧ 32 ≤ (sprintf (real.rounded double)).length ∧
      fault = .bufferOverrun (sprintf (real.rounded double)) := by
  obtain ⟨real, isNumber, faulty⟩ := lasts
  rw [Double.valueToString] at faulty
  split at faulty
  · cases faulty
    exact ⟨real, isNumber, by omega, rfl⟩
  · cases faulty

/-- What can be printed is written, with comments or without. -/
theorem WrittenBy.succeeds (written : WrittenBy double comments v outcome)
    (rounding : Exact double) (printable : Printable double v) (counted : Counted v) :
    ∃ document, outcome = .ok document := by
  have lasts : Lasts False double _ v outcome :=
    written.lasts rounding False.elim False.elim printable counted
  cases outcome with
  | ok document => exact ⟨document, rfl⟩
  | error fault =>
      obtain ⟨real, short, long, _⟩ := lasts.long
      have fits := short real rfl
      omega

end written
end AsyncPing
