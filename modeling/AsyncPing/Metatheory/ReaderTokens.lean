import AsyncPing.Core.JsonReader
import AsyncPing.Library.Contract
import Mathlib.Data.List.TakeWhile

/-!
The tokens of the reader. Reading one never faults: it moves forward inside the
document, records no error and stores a comment only where the checks of the value
pass. From what it has read the functions that decode it find the token's quotes
and digits in place.
-/
namespace AsyncPing

theorem between_append (text stop : List Char) : between (text ++ stop) stop = text := by
  rw [between, List.length_append, Nat.add_sub_cancel, List.take_left]

namespace Reader

/-- No fault is accounted for. -/
abbrev Runs {α : Type} (m : Reading α) (r : Reader) (post : α → Reader → Prop) : Prop :=
  Exec.Meets (fun _ => False) m r post

structure Sound (r : Reader) : Prop where
  inside : r.current <:+ r.document
  value : r.lastValueEnd.isSome = true → r.lastValue = true
  comments : r.commentsBefore = [] ∨ deref r.commentsBefore = '/'

/-- The reader has moved on without an error. -/
structure Advances (r r' : Reader) : Prop where
  errors : r'.errors = r.errors
  document : r'.document = r.document
  collect : r'.collectComments = r.collectComments
  suffix : r'.current <:+ r.current
  sound : r'.Sound

section advances
variable {r r' r'' : Reader}

theorem Sound.advances (sound : r.Sound) : r.Advances r := ⟨rfl, rfl, rfl, List.suffix_rfl, sound⟩

theorem Advances.trans (first : r.Advances r') (second : r'.Advances r'') : r.Advances r'' :=
  ⟨second.errors.trans first.errors, second.document.trans first.document,
    second.collect.trans first.collect, second.suffix.trans first.suffix, second.sound⟩

theorem Sound.move (sound : r.Sound) {rest : Location} (suffix : rest <:+ r.current) :
    r.Advances { r with current := rest } :=
  ⟨rfl, rfl, rfl, suffix, suffix.trans sound.inside, sound.value, sound.comments⟩

end advances

/-! ## Single characters -/

theorem getNextChar_eq (r : Reader) :
    getNextChar r = .ok (deref r.current, { r with current := r.current.tail }) := by
  cases r with
  | mk errors document current lastValueEnd lastValue commentsBefore collectComments =>
      cases current with
      | nil => rfl
      | cons c rest => rfl

theorem deref_of_suffix {start stop rest : Location} {c : Char} (first : start = c :: rest)
    (suffix : stop <:+ rest) : deref (between start stop) = c := by
  obtain ⟨text, rfl⟩ := suffix
  rw [first, ← List.cons_append, between_append]
  rfl

/-! ## Comments -/

theorem skipCStyle_suffix (text : Location) : skipCStyle text <:+ text := by
  induction text with
  | nil => exact List.suffix_rfl
  | cons c rest ih =>
      rw [skipCStyle]
      split
      · exact List.suffix_cons c rest
      · exact ih.trans (List.suffix_cons c rest)

theorem skipCppStyle_suffix (text : Location) : skipCppStyle text <:+ text := by
  induction text with
  | nil => exact List.suffix_rfl
  | cons c rest ih =>
      rw [skipCppStyle]
      split
      · exact List.suffix_cons c rest
      · exact ih.trans (List.suffix_cons c rest)

section comments
variable {r : Reader} {start stop : Location}

theorem setComment_eq {text : List Char} (slash : deref text = '/') :
    setComment text r = .ok ((), r) := by
  rw [setComment, if_pos (.inr slash)]
  rfl

theorem addComment_runs (sound : r.Sound) (collect : r.collectComments = true)
    (slash : deref (between start stop) = '/') {onSameLine : Bool}
    (value : onSameLine = true → r.lastValue = true) :
    Runs (addComment start stop onSameLine) r fun _ r' =>
      r.Advances r' ∧ r'.current = r.current := by
  rw [addComment, Runs, Exec.meets_get_bind, collect]
  cases onSameLine with
  | true =>
      rw [value rfl]
      exact .of_run (setComment_eq slash) ⟨sound.advances, rfl⟩
  | false =>
      refine ⟨⟨rfl, rfl, collect.symm, List.suffix_rfl, sound.inside, sound.value, .inr ?_⟩, rfl⟩
      cases before : r.commentsBefore with
      | nil => exact slash
      | cons c rest =>
          have first := sound.comments
          rw [before] at first
          exact first.resolve_left nofun

theorem readCommentBody_runs (sound : r.Sound) (c : Char) :
    Runs (readCommentBody c) r fun _ r' => r.Advances r' := by
  rw [readCommentBody, Runs]
  split
  · have after := sound.move (skipCStyle_suffix r.current)
    rw [readCStyleComment, Exec.meets_modify_bind]
    refine Exec.Meets.bind_of_run (getNextChar_eq _) ?_
    exact after.trans (after.sound.move (List.tail_suffix _))
  · split
    · exact sound.move (skipCppStyle_suffix r.current)
    · exact sound.advances

/-- The scan of a comment whose first slash has been read. -/
theorem readComment_runs (sound : r.Sound) (first : start = '/' :: r.current) :
    Runs (readComment start) r fun _ r' => r.Advances r' := by
  rw [readComment, Runs]
  have first₁ := sound.move (List.tail_suffix r.current)
  refine Exec.Meets.bind_of_run (getNextChar_eq r) ?_
  refine Exec.Meets.bind (readCommentBody_runs first₁.sound _) ?_
  intro successful r₂ body
  have moved := first₁.trans body
  split
  · exact moved
  · rw [Exec.meets_get_bind]
    split
    · exact moved
    · rename_i collects
      refine Exec.Meets.bind (addComment_runs moved.sound (by simpa using collects)
        (deref_of_suffix first moved.suffix) fun same => ?_) fun _ _ after => moved.trans after.1
      rw [isOnSameLine] at same
      cases last : r₂.lastValueEnd with
      | none =>
          rw [last] at same
          cases same
      | some lastValueEnd => exact moved.sound.value (by rw [last]; rfl)

end comments
/-! ## Tokens -/

theorem skipString_suffix (text : Location) : (skipString text).2 <:+ text := by
  fun_induction skipString text with
  | case1 | case2 => exact List.nil_suffix
  | case3 c rest ih => exact ih.trans ((List.suffix_cons c rest).trans (List.suffix_cons _ _))
  | case4 => exact List.suffix_cons _ _
  | case5 c rest _ _ ih => exact ih.trans (List.suffix_cons c rest)

theorem skipString_closed (text : Location) (closed : (skipString text).1 = true) :
    ∃ inner, text = inner ++ '"' :: (skipString text).2 := by
  fun_induction skipString text with
  | case1 | case2 => cases closed
  | case3 c rest ih =>
      obtain ⟨inner, same⟩ := ih closed
      exact ⟨'\\' :: c :: inner, by rw [List.cons_append, List.cons_append, ← same]⟩
  | case4 => exact ⟨[], rfl⟩
  | case5 c rest _ _ ih =>
      obtain ⟨inner, same⟩ := ih closed
      exact ⟨c :: inner, by rw [List.cons_append, ← same]⟩

/-- What the switch leaves behind a string or a number. -/
structure Scanned (c : Char) (r : Reader) (result : TokenType × Bool) (r' : Reader) : Prop where
  advances : r.Advances r'
  string : result = (.tokenString, true) → c = '"' ∧ ∃ inner, r.current = inner ++ '"' :: r'.current
  number : result.1 = .tokenNumber → (c.isDigit = true ∨ c = '-') ∧
    ∃ digits, r.current = digits ++ r'.current ∧ ∀ d ∈ digits, isNumberChar d = true
  stream : result.1 = .tokenEndOfStream → c = '\x00'

theorem Scanned.plain {c : Char} {r r' : Reader} {result : TokenType × Bool}
    (advances : r.Advances r') (noString : result.1 ≠ .tokenString)
    (noNumber : result.1 ≠ .tokenNumber) (stream : result.1 = .tokenEndOfStream → c = '\x00') :
    Scanned c r result r' := by
  refine ⟨advances, fun same => ?_, fun same => (noNumber same).elim, stream⟩
  rw [same] at noString
  exact (noString rfl).elim

theorem matchPattern_runs {r : Reader} (sound : r.Sound) (pattern : List Char) :
    Runs (matchPattern pattern) r fun _ r' => r.Advances r' := by
  rw [matchPattern, Runs, Exec.meets_get_bind]
  split
  · exact sound.move (List.drop_suffix _ _)
  · exact sound.advances

theorem readString_runs {r : Reader} (sound : r.Sound) :
    Runs readString r fun closed r' => r.Advances r' ∧
      (closed = true → ∃ inner, r.current = inner ++ '"' :: r'.current) :=
  ⟨sound.move (skipString_suffix r.current), skipString_closed r.current⟩

theorem scanToken_runs {r : Reader} {start : Location} (sound : r.Sound) {c : Char}
    (first : c ≠ '\x00' → start = c :: r.current) :
    Runs (scanToken start c) r fun result r' => Scanned c r result r' := by
  rw [Runs]
  unfold scanToken
  split
  case h_1 | h_2 | h_3 | h_4 | h_10 | h_11 => exact Scanned.plain sound.advances nofun nofun nofun
  case h_12 => exact Scanned.plain sound.advances nofun nofun fun _ => rfl
  case h_5 =>
    refine (readString_runs sound).bind fun closed r' ends => ?_
    refine ⟨ends.1, fun same => ⟨rfl, ends.2 ?_⟩, nofun, nofun⟩
    exact (Prod.mk.inj same).2
  case h_6 =>
    refine (readComment_runs sound (first (by decide))).bind fun ok r' ends => ?_
    exact Scanned.plain ends nofun nofun nofun
  case h_7 | h_8 | h_9 =>
    refine (matchPattern_runs sound _).bind fun ok r' ends => ?_
    exact Scanned.plain ends nofun nofun nofun
  case h_13 =>
    split
    · rename_i digit
      refine ⟨sound.move (List.dropWhile_suffix _), nofun,
        fun _ => ⟨?_, r.current.takeWhile isNumberChar, ?_, ?_⟩, nofun⟩
      · simpa using digit
      · exact List.takeWhile_append_dropWhile.symm
      · exact fun d member => List.mem_takeWhile_imp member
    · exact Scanned.plain sound.advances nofun nofun nofun

end Reader

/-- A token read in this text, with what is left behind it. -/
structure Token.ReadFrom (token : Token) (text rest : Location) : Prop where
  start : token.start <:+ text
  stop : token.stop = rest
  inside : rest <:+ token.start
  consumed : rest.length < text.length ∨ token.type = .tokenEndOfStream ∧ rest = []
  string : token.type = .tokenString → ∃ inner, token.start = '"' :: inner ++ '"' :: rest
  number : token.type = .tokenNumber → ∃ c digits, token.start = c :: digits ++ rest ∧
    (c.isDigit = true ∨ c = '-') ∧ ∀ d ∈ digits, Reader.isNumberChar d = true

theorem Token.ReadFrom.earlier {token : Token} {text text' rest : Location}
    (read : token.ReadFrom text rest) (suffix : text <:+ text') : token.ReadFrom text' rest := by
  refine ⟨read.start.trans suffix, read.stop, read.inside, ?_, read.string, read.number⟩
  exact read.consumed.imp_left fun shorter => Nat.lt_of_lt_of_le shorter suffix.length_le

namespace Reader
section tokens
variable {r : Reader}

theorem readToken_runs (sound : r.Sound) :
    Runs readToken r fun token r' => r.Advances r' ∧ token.ReadFrom r.current r'.current := by
  have spaces := sound.move (List.dropWhile_suffix isSpace)
  have shorter : (r.current.dropWhile isSpace).length ≤ r.current.length :=
    List.length_dropWhile_le _ _
  rw [readToken, Runs, skipSpaces, Exec.meets_modify_bind, Exec.meets_get_bind]
  refine Exec.Meets.bind_of_run (getNextChar_eq _) ?_
  have first := spaces.trans (spaces.sound.move (List.tail_suffix _))
  cases text : r.current.dropWhile isSpace with
  | nil =>
      rw [text] at first
      exact ⟨first, List.nil_suffix, rfl, List.suffix_rfl, .inr ⟨rfl, rfl⟩, nofun, nofun⟩
  | cons c rest =>
      rw [text] at first shorter
      refine Exec.Meets.bind (scanToken_runs first.sound fun _ => rfl) fun result r₂ scanned => ?_
      rw [Exec.meets_get_bind, Exec.meets_pure]
      have inside : r₂.current <:+ rest := scanned.advances.suffix
      refine ⟨first.trans scanned.advances, ?_, rfl, inside.trans (List.suffix_cons c rest),
        .inl (Nat.lt_of_le_of_lt inside.length_le shorter), fun string => ?_, fun number => ?_⟩
      · exact text ▸ List.dropWhile_suffix isSpace
      · have both : result = (.tokenString, true) := by
          obtain ⟨type, ok⟩ := result
          cases ok <;> simp_all
        obtain ⟨quote, inner, same⟩ := scanned.string both
        have same' : rest = inner ++ '"' :: r₂.current := same
        exact ⟨inner, by rw [show c = '"' from quote, same']; rfl⟩
      · have type : result.1 = .tokenNumber := by
          obtain ⟨type, ok⟩ := result
          cases ok <;> simp_all
        obtain ⟨head, digits, same, all⟩ := scanned.number type
        have same' : rest = digits ++ r₂.current := same
        exact ⟨c, digits, by rw [same']; rfl, head, all⟩

/-- Everything up to the first token that is no comment. -/
theorem skipCommentTokensFrom_runs (sound : r.Sound) (fuel : Nat)
    (enough : r.current.length < fuel) :
    Runs (skipCommentTokensFrom fuel) r fun token r' => r.Advances r' ∧
      token.ReadFrom r.current r'.current ∧ token.type ≠ .tokenComment := by
  induction fuel generalizing r with
  | zero => cases enough
  | succ fuel ih =>
      rw [skipCommentTokensFrom]
      refine (readToken_runs sound).bind fun token r₁ read => ?_
      obtain ⟨moved, read⟩ := read
      split
      · rename_i comment
        have shorter : r₁.current.length < r.current.length :=
          read.consumed.resolve_right fun ends => by rw [comment] at ends; cases ends.1
        refine (ih moved.sound (by omega)).mono fun token r₂ later => ?_
        exact ⟨moved.trans later.1, later.2.1.earlier moved.suffix, later.2.2⟩
      · rename_i other
        exact ⟨moved, read, other⟩

theorem skipCommentTokens_runs (sound : r.Sound) :
    Runs skipCommentTokens r fun token r' => r.Advances r' ∧
      token.ReadFrom r.current r'.current ∧ token.type ≠ .tokenComment :=
  skipCommentTokensFrom_runs sound _ (Nat.lt_succ_self _)

theorem takeCommentsBefore_runs (sound : r.Sound) :
    Runs takeCommentsBefore r fun _ r' => r.Advances r' ∧ r'.current = r.current := by
  rw [takeCommentsBefore, Runs, Exec.meets_get_bind]
  split
  · rename_i some
    have slash : deref r.commentsBefore = '/' := sound.comments.resolve_left fun none => by
      rw [none] at some
      simp at some
    refine Exec.Meets.bind_of_run (setComment_eq slash) ?_
    exact ⟨⟨rfl, rfl, rfl, List.suffix_rfl, sound.inside, sound.value, .inl rfl⟩, rfl⟩
  · exact ⟨sound.advances, rfl⟩

/-! ## Recovery -/

theorem skipUntil_runs (sound : r.Sound) (type : TokenType) (fuel : Nat)
    (enough : r.current.length < fuel) :
    Runs (skipUntil type fuel) r fun _ r' => r.Advances r' := by
  induction fuel generalizing r with
  | zero => cases enough
  | succ fuel ih =>
      rw [skipUntil]
      refine (readToken_runs sound).bind fun token r₁ read => ?_
      obtain ⟨moved, read⟩ := read
      split
      · exact moved
      · rename_i other
        have shorter : r₁.current.length < r.current.length :=
          read.consumed.resolve_right fun ends => other (.inr ends.1)
        exact (ih moved.sound (by omega)).mono fun _ _ later => moved.trans later

theorem recoverFromError_runs (sound : r.Sound) (type : TokenType) :
    Runs (recoverFromError type) r fun ok r' => ok = false ∧ r.Advances r' := by
  rw [recoverFromError, Runs, Exec.meets_get_bind]
  refine Exec.Meets.bind (skipUntil_runs sound type _ (Nat.lt_succ_self _)) fun _ r' moved => ?_
  rw [Exec.meets_modify_bind, Exec.meets_pure]
  refine ⟨rfl, ?_, moved.document, moved.collect, moved.suffix, moved.sound.inside,
    moved.sound.value, moved.sound.comments⟩
  change r'.errors.take r.errors.length = r.errors
  rw [moved.errors, List.take_length]

end tokens
end Reader
end AsyncPing
