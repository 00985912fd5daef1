import AsyncPing.Metatheory.Numerals
import AsyncPing.Metatheory.ReaderTokens
import Mathlib.Data.List.DropRight

/-!
The tokens of a text that lays out a value. Where a text starts with a token, the
reader reads it from any place in the blanks and comments before it, and stops right
behind it.
-/
namespace AsyncPing
namespace Reader
open JsonText

/-- The text from its first char that is no blank. -/
abbrev trim (text : List Char) : List Char := text.dropWhile isSpace

theorem trim_blank {gap text : List Char} (blank : Blank gap) : trim (gap ++ text) = trim text := by
  induction gap with
  | nil => rfl
  | cons c gap ih =>
      have first : isSpace c = true := blank c List.mem_cons_self
      rw [List.cons_append, trim, List.dropWhile_cons_of_pos first]
      exact ih fun d member => blank d (List.mem_cons_of_mem c member)

theorem trim_cons {c : Char} (visible : isSpace c = false) (text : List Char) :
    trim (c :: text) = c :: text :=
  List.dropWhile_cons_of_neg (by rw [visible]; exact Bool.false_ne_true)

theorem trim_trim (text : List Char) : trim (trim text) = trim text :=
  List.dropWhile_idempotent isSpace text

/-! ## Tokens -/

/-- The text starts with a token of this type, behind which the rest stands. -/
def Scans (type : TokenType) (text rest : Location) : Prop :=
  ∃ c tail, text = c :: tail ∧ isSpace c = false ∧ ∀ r : Reader, r.Sound → r.current = tail →
    Runs (scanToken text c) r fun result r' => result = (type, true) ∧ r'.current = rest

/-- What reading that token leaves behind. -/
structure Reads (r : Reader) (type : TokenType) (text rest : Location) (token : Token)
    (r' : Reader) : Prop where
  advances : r.Advances r'
  token : token = ⟨type, text, rest⟩
  current : r'.current = rest
  shorter : r'.current.length < r.current.length

theorem Scans.trimmed {type : TokenType} {text rest : Location} (scans : Scans type text rest) :
    trim text = text := by
  obtain ⟨c, tail, rfl, visible, -⟩ := scans
  exact trim_cons visible tail

theorem Scans.shorter {type : TokenType} {text rest : Location}
    (scans : Scans type text rest) : rest.length < text.length := by
  obtain ⟨c, tail, rfl, -, scan⟩ := scans
  have sound : Reader.Sound ⟨[], tail, tail, none, false, [], false⟩ :=
    ⟨List.suffix_rfl, nofun, .inl rfl⟩
  have scanned := (scan _ sound rfl).both
    ((scanToken_runs sound fun _ => rfl).mono_fault fun _ _ => trivial)
  obtain ⟨_, r', -, ⟨-, rfl⟩, moved⟩ := scanned.run
  exact Nat.lt_succ_of_le moved.advances.suffix.length_le

theorem Scans.fits {type : TokenType} {text rest : Location}
    (scans : Scans type text rest) {r : Reader} (here : trim r.current = text) :
    rest.length < r.current.length :=
  Nat.lt_of_lt_of_le scans.shorter (here ▸ List.length_dropWhile_le ..)

theorem readToken_reads {type : TokenType} {text rest : Location} (scans : Scans type text rest)
    {r : Reader} (sound : r.Sound) (here : trim r.current = text) :
    Runs readToken r (Reads r type text rest) := by
  have less := scans.fits here
  obtain ⟨c, tail, rfl, visible, scan⟩ := scans
  have ends : Exec.Meets (fun _ => True) readToken r fun token r' =>
      token = ⟨type, c :: tail, rest⟩ ∧ r'.current = rest := by
    have moved := sound.move (List.dropWhile_suffix isSpace)
    have tailMoved := moved.trans (moved.sound.move (List.tail_suffix _))
    rw [readToken, skipSpaces, Exec.meets_modify_bind, Exec.meets_get_bind]
    refine Exec.Meets.bind_of_run (getNextChar_eq _) ?_
    have text : r.current.dropWhile isSpace = c :: tail := here
    rw [text] at tailMoved ⊢
    refine ((scan _ tailMoved.sound rfl).bind ?_).mono_fault fun _ _ => trivial
    rintro _ r' ⟨rfl, current⟩
    exact ⟨congrArg (Token.mk type (c :: tail)) current, current⟩
  exact ((readToken_runs sound).both ends).mono fun token r' both =>
    ⟨both.1.1, both.2.1, both.2.2, both.2.2 ▸ less⟩

/-! ### Brackets and words -/

section scans
variable (rest : Location)

theorem scans_objectBegin : Scans .tokenObjectBegin ('{' :: rest) rest :=
  ⟨_, _, rfl, rfl, fun _ _ current => ⟨rfl, current⟩⟩

theorem scans_objectEnd : Scans .tokenObjectEnd ('}' :: rest) rest :=
  ⟨_, _, rfl, rfl, fun _ _ current => ⟨rfl, current⟩⟩

theorem scans_arrayBegin : Scans .tokenArrayBegin ('[' :: rest) rest :=
  ⟨_, _, rfl, rfl, fun _ _ current => ⟨rfl, current⟩⟩

theorem scans_arrayEnd : Scans .tokenArrayEnd (']' :: rest) rest :=
  ⟨_, _, rfl, rfl, fun _ _ current => ⟨rfl, current⟩⟩

theorem scans_arraySeparator : Scans .tokenArraySeparator (',' :: rest) rest :=
  ⟨_, _, rfl, rfl, fun _ _ current => ⟨rfl, current⟩⟩

theorem scans_memberSeparator : Scans .tokenMemberSeparator (':' :: rest) rest :=
  ⟨_, _, rfl, rfl, fun _ _ current => ⟨rfl, current⟩⟩

theorem matchPattern_meets (pattern : List Char) {r : Reader}
    (current : r.current = pattern ++ rest) :
    Runs (matchPattern pattern) r fun ok r' => ok = true ∧ r'.current = rest := by
  have found : pattern.isPrefixOf r.current = true := by
    rw [current, List.isPrefixOf_iff_prefix]
    exact List.prefix_append pattern rest
  rw [matchPattern, Runs, Exec.meets_get_bind, if_pos found]
  refine ⟨rfl, ?_⟩
  change r.current.drop pattern.length = rest
  rw [current, List.drop_left]

theorem scans_null : Scans .tokenNull ('n' :: 'u' :: 'l' :: 'l' :: rest) rest := by
  refine ⟨_, _, rfl, rfl, fun r _ current => ?_⟩
  refine (matchPattern_meets rest "ull".toList current).bind ?_
  rintro _ r' ⟨rfl, same⟩
  exact ⟨rfl, same⟩

theorem scans_true : Scans .tokenTrue ('t' :: 'r' :: 'u' :: 'e' :: rest) rest := by
  refine ⟨_, _, rfl, rfl, fun r _ current => ?_⟩
  refine (matchPattern_meets rest "rue".toList current).bind ?_
  rintro _ r' ⟨rfl, same⟩
  exact ⟨rfl, same⟩

theorem scans_false : Scans .tokenFalse ('f' :: 'a' :: 'l' :: 's' :: 'e' :: rest) rest := by
  refine ⟨_, _, rfl, rfl, fun r _ current => ?_⟩
  refine (matchPattern_meets rest "alse".toList current).bind ?_
  rintro _ r' ⟨rfl, same⟩
  exact ⟨rfl, same⟩

/-! ### Strings -/

theorem skipString_cons {c : Char} (noEscape : c ≠ '\\') :
    skipString (c :: rest) = if c = '"' then (true, rest) else skipString rest := by
  rw [skipString.eq_def]
  exact if_neg noEscape

theorem skipString_escape (code : Char) : skipString ('\\' :: code :: rest) = skipString rest := by
  rw [skipString, if_pos rfl]

theorem skipString_quoted {content text : List Char} (quoted : Quoted content text) :
    skipString (text ++ rest) = (true, rest) := by
  induction quoted with
  | close => exact skipString_cons rest (by decide)
  | plain c noQuote noEscape noNul _ ih =>
      rw [List.cons_append, skipString_cons _ noEscape, if_neg noQuote, ih]
  | escaped code c known _ ih => exact (skipString_escape _ code).trans ih

theorem scans_string {content text : List Char} (quoted : Quoted content text) :
    Scans .tokenString ('"' :: (text ++ rest)) rest := by
  refine ⟨_, _, rfl, rfl, fun r _ current => ?_⟩
  have ends : readString r = .ok (true, { r with current := rest }) := by
    change Except.ok ((skipString r.current).1, { r with current := (skipString r.current).2 }) = _
    rw [current, skipString_quoted rest quoted]
  exact Exec.Meets.bind_of_run ends ⟨rfl, rfl⟩

/-! ### Numbers -/

/-- A number ends here. -/
abbrev Ends (rest : Location) : Prop := ∀ c ∈ rest.head?, isNumberChar c = false

theorem dropWhile_number {text : List Char} (chars : ∀ c ∈ text, isNumberChar c = true)
    (ends : Ends rest) : (text ++ rest).dropWhile isNumberChar = rest := by
  rw [List.dropWhile_append_of_pos chars, (takeWhile_stop ends).2]

theorem scanToken_number {start : Location} {c : Char} (head : c.isDigit = true ∨ c = '-') :
    scanToken start c = (do readNumber; return (.tokenNumber, true)) := by
  unfold scanToken
  split
  case h_13 => exact if_pos (by simpa using head)
  all_goals exact absurd head (by decide)

theorem visible_number {c : Char} (head : c.isDigit = true ∨ c = '-') : isSpace c = false := by
  rw [isSpace, decide_eq_false_iff_not]
  rintro (rfl | rfl | rfl | rfl) <;> exact absurd head (by decide)

theorem scans_number {c : Char} {text : List Char} (head : c.isDigit = true ∨ c = '-')
    (chars : ∀ d ∈ text, isNumberChar d = true) (ends : Ends rest) :
    Scans .tokenNumber (c :: (text ++ rest)) rest := by
  refine ⟨c, text ++ rest, rfl, visible_number head, fun r _ current => ?_⟩
  rw [scanToken_number head]
  refine ⟨rfl, ?_⟩
  change r.current.dropWhile isNumberChar = rest
  rw [current, dropWhile_number rest chars ends]

/-! ### Comments -/

theorem addComment_current {start stop : Location} {onSameLine : Bool} (r : Reader) :
    Exec.Meets (fun _ => True) (addComment start stop onSameLine) r fun _ r' =>
      r'.current = r.current := by
  have stored : Exec.Meets (fun _ => True) (setComment (between start stop)) r fun _ r' =>
      r'.current = r.current := by
    rw [setComment]
    split
    · rfl
    · trivial
  rw [addComment, Exec.meets_get_bind]
  split
  · trivial
  · split
    · split
      · trivial
      · exact stored
    · rfl

variable {rest}

/-- The comment is read as its body is. -/
theorem scans_comment {c : Char} {tail : Location} (body : ∀ r : Reader, r.current = tail →
      Runs (readCommentBody c) r fun ok r' => ok = true ∧ r'.current = rest) :
    Scans .tokenComment ('/' :: c :: tail) rest := by
  refine ⟨_, _, rfl, rfl, fun r sound current => ?_⟩
  have ends : Exec.Meets (fun _ => True) (readComment ('/' :: c :: tail)) r fun ok r' =>
      ok = true ∧ r'.current = rest := by
    rw [readComment]
    refine Exec.Meets.bind_of_run (getNextChar_eq r) ?_
    rw [current]
    refine ((body { r with current := tail } rfl).mono_fault fun _ _ => trivial).bind ?_
    rintro ok r' ⟨rfl, same⟩
    rw [Bool.not_true, if_neg Bool.false_ne_true, Exec.meets_get_bind]
    split
    · exact ⟨rfl, same⟩
    · exact (addComment_current r').bind fun _ r'' kept => ⟨rfl, kept.trans same⟩
  have read := (readComment_runs sound (congrArg ('/' :: ·) current.symm)).both ends
  exact read.bind fun ok r' both => ⟨congrArg (Prod.mk TokenType.tokenComment) both.2.1, both.2.2⟩

theorem skipCStyle_body {body : List Char} (unclosed : ¬['*', '/'] <:+: body) :
    skipCStyle (body ++ '*' :: '/' :: rest) = '/' :: rest := by
  induction body with
  | nil => rfl
  | cons c body ih =>
      have goesOn : ¬(c = '*' ∧ deref (body ++ '*' :: '/' :: rest) = '/') := by
        rintro ⟨rfl, slash⟩
        cases body with
        | nil => exact absurd (show '*' = '/' from slash) (by decide)
        | cons d body =>
            have same : d = '/' := slash
            exact unclosed ⟨[], body, by rw [same]; rfl⟩
      rw [List.cons_append, skipCStyle, if_neg goesOn]
      exact ih fun inside => unclosed (inside.trans (List.suffix_cons c body).isInfix)

theorem skipCppStyle_body {body : List Char} {stop : Char}
    (inLine : ∀ c ∈ body, c ≠ '\r' ∧ c ≠ '\n') (ends : stop = '\r' ∨ stop = '\n') :
    skipCppStyle (body ++ stop :: rest) = rest := by
  induction body with
  | nil => exact if_pos ends
  | cons c body ih =>
      have other := inLine c List.mem_cons_self
      rw [List.cons_append, skipCppStyle, if_neg (by tauto)]
      exact ih fun d member => inLine d (List.mem_cons_of_mem c member)

theorem scans_block {body : List Char} (unclosed : ¬['*', '/'] <:+: body) :
    Scans .tokenComment ('/' :: '*' :: (body ++ '*' :: '/' :: rest)) rest := by
  refine scans_comment fun r current => ?_
  have stop : skipCStyle r.current = '/' :: rest := by rw [current, skipCStyle_body unclosed]
  change Runs readCStyleComment r _
  rw [readCStyleComment, Runs, Exec.meets_modify_bind, stop]
  exact Exec.Meets.bind_of_run (getNextChar_eq _) ⟨rfl, rfl⟩

theorem scans_line {body : List Char} {stop : Char}
    (inLine : ∀ c ∈ body, c ≠ '\r' ∧ c ≠ '\n') (ends : stop = '\r' ∨ stop = '\n') :
    Scans .tokenComment ('/' :: '/' :: (body ++ stop :: rest)) rest := by
  refine scans_comment fun r current => ⟨rfl, ?_⟩
  change skipCppStyle r.current = rest
  rw [current, skipCppStyle_body inLine ends]

end scans
/-! ## Fillers -/

section fillers
variable {type : TokenType} {before text rest : Location} {r : Reader}

theorem Reads.after {r' r'' : Reader} {token : Token} (reads : Reads r' type text rest token r'')
    (moved : r.Advances r') : Reads r type text rest token r'' :=
  ⟨moved.trans reads.advances, reads.token, reads.current,
    Nat.lt_of_lt_of_le reads.shorter moved.suffix.length_le⟩

theorem trim_block {gap body more : List Char} (isGap : Blank gap) :
    trim (gap ++ '/' :: '*' :: (body ++ '*' :: '/' :: more) ++ text) =
      '/' :: '*' :: (body ++ '*' :: '/' :: (more ++ text)) := by
  rw [List.append_assoc, trim_blank isGap, List.cons_append, trim_cons rfl, List.cons_append,
    List.append_assoc, List.cons_append, List.cons_append]

theorem trim_line {gap body more : List Char} {stop : Char} (isGap : Blank gap) :
    trim (gap ++ '/' :: '/' :: (body ++ stop :: more) ++ text) =
      '/' :: '/' :: (body ++ stop :: (more ++ text)) := by
  rw [List.append_assoc, trim_blank isGap, List.cons_append, trim_cons rfl, List.cons_append,
    List.append_assoc, List.cons_append]

/-- A comment is skipped, and the reader goes on behind it. -/
theorem skipComment_reads {start more : Location} {fuel : Nat}
    (comment : Scans .tokenComment start (more ++ text)) (sound : r.Sound)
    (here : trim r.current = start) (enough : r.current.length < fuel + 1)
    (later : ∀ r' : Reader, r'.Sound → trim r'.current = trim (more ++ text) →
      r'.current.length < fuel →
      Runs (skipCommentTokensFrom fuel) r' (Reads r' type text rest)) :
    Runs (skipCommentTokensFrom (fuel + 1)) r (Reads r type text rest) := by
  rw [skipCommentTokensFrom]
  refine (readToken_reads comment sound here).bind ?_
  rintro _ r' ⟨moved, rfl, current, -⟩
  have shorter := comment.fits here
  rw [if_pos rfl]
  exact (later r' moved.sound (by rw [current]) (by rw [current]; omega)).mono
    fun _ _ reads => reads.after moved

theorem skipCommentTokensFrom_reads (filler : Filler before) (scans : Scans type text rest)
    (other : type ≠ .tokenComment) (sound : r.Sound)
    (here : trim r.current = trim (before ++ text)) {fuel : Nat}
    (enough : r.current.length < fuel) :
    Runs (skipCommentTokensFrom fuel) r (Reads r type text rest) := by
  obtain ⟨fuel, rfl⟩ := Nat.exists_eq_succ_of_ne_zero (Nat.ne_zero_of_lt enough)
  induction filler generalizing r fuel with
  | blank gap isGap =>
      rw [trim_blank isGap, scans.trimmed] at here
      rw [skipCommentTokensFrom]
      refine (readToken_reads scans sound here).bind ?_
      rintro _ r' ⟨moved, rfl, current, less⟩
      rw [if_neg other]
      exact ⟨moved, rfl, current, less⟩
  | @block gap body more isGap unclosed _ ih =>
      rw [trim_block isGap] at here
      refine skipComment_reads (scans_block unclosed) sound here enough
        fun r' sound' here' enough' => ?_
      obtain ⟨fuel, rfl⟩ := Nat.exists_eq_succ_of_ne_zero (Nat.ne_zero_of_lt enough')
      exact ih sound' here' fuel enough'
  | @line gap body stop more isGap inLine ends _ ih =>
      rw [trim_line isGap] at here
      refine skipComment_reads (scans_line inLine ends) sound here enough
        fun r' sound' here' enough' => ?_
      obtain ⟨fuel, rfl⟩ := Nat.exists_eq_succ_of_ne_zero (Nat.ne_zero_of_lt enough')
      exact ih sound' here' fuel enough'

theorem skipCommentTokens_reads (filler : Filler before) (scans : Scans type text rest)
    (other : type ≠ .tokenComment) (sound : r.Sound)
    (here : trim r.current = trim (before ++ text)) :
    Runs skipCommentTokens r (Reads r type text rest) :=
  skipCommentTokensFrom_reads filler scans other sound here (Nat.lt_succ_self _)

/-- Where a comma or a closing bracket is expected, comments before it are skipped. -/
theorem readSeparator_reads (filler : Filler before) (scans : Scans type text rest)
    (other : type ≠ .tokenComment) (sound : r.Sound)
    (here : trim r.current = trim (before ++ text)) :
    Runs readToken r fun token r' => r.Advances r' ∧
      (token.type = type ∨ token.type = .tokenComment) ∧
      Runs (skipCommentsFrom token) r' (Reads r type text rest) := by
  have comment : ∀ {start more : Location}, Scans .tokenComment start (more ++ text) →
      trim r.current = start → Filler more → Runs readToken r fun token r' => r.Advances r' ∧
        (token.type = type ∨ token.type = .tokenComment) ∧
        Runs (skipCommentsFrom token) r' (Reads r type text rest) := by
    intro start more first here filler
    refine (readToken_reads first sound here).mono ?_
    rintro _ r' ⟨moved, rfl, current, -⟩
    refine ⟨moved, .inr rfl, ?_⟩
    rw [skipCommentsFrom, if_pos rfl]
    exact (skipCommentTokens_reads filler scans other moved.sound (by rw [current])).mono
      fun _ _ reads => reads.after moved
  cases filler with
  | blank gap isGap =>
      rw [trim_blank isGap, scans.trimmed] at here
      refine (readToken_reads scans sound here).mono ?_
      rintro _ r' ⟨moved, rfl, current, less⟩
      refine ⟨moved, .inl rfl, ?_⟩
      rw [skipCommentsFrom, if_neg other]
      exact ⟨moved, rfl, current, less⟩
  | @block gap body more isGap unclosed filler =>
      exact comment (scans_block unclosed) (here.trans (trim_block isGap)) filler
  | @line gap body stop more isGap inLine ends filler =>
      exact comment (scans_line inLine ends) (here.trans (trim_line isGap)) filler

end fillers
end Reader
end AsyncPing
