import AsyncPing.Metatheory.Numerals
import AsyncPing.Metatheory.ReaderTokens
import AsyncPing.Metatheory.ValueShape

/-!
Whole runs of the reader. A parse always ends; the only fault is the one of
`decodeDouble`. It fails where it records an error, which is one, and the value it
leaves behind is well shaped either way.
-/
namespace AsyncPing

/-- The error points into the document, and its extra location into its token or
behind it. -/
structure ErrorInfo.Within (error : ErrorInfo) (document : List Char) : Prop where
  start : error.token.start <:+ document
  stop : error.token.stop <:+ error.token.start
  extra : ∀ location, error.extra = some location → location <:+ error.token.start

namespace Reader

/-- The one fault: a numeral as long as the buffer. -/
def Overlong (document : List Char) : ReaderFault → Prop
  | .bufferOverrun text =>
      text.length = bufferSize ∧ text <:+: document ∧ ∀ c ∈ text, isNumberChar c = true
  | _ => False

/-- The reader has moved on, with an error exactly when it did not succeed. -/
structure Outcome (r : Reader) (ok : Bool) (r' : Reader) : Prop where
  document : r'.document = r.document
  collect : r'.collectComments = r.collectComments
  suffix : r'.current <:+ r.current
  sound : r'.Sound
  succeeded : ok = true → r'.errors = r.errors
  failed : ok = false → ∃ error : ErrorInfo, r'.errors = r.errors ++ [error] ∧
    error.Within r.document

section outcome
variable {r r' r'' : Reader} {ok : Bool}

theorem Advances.outcome (moved : r.Advances r') : Outcome r true r' :=
  ⟨moved.document, moved.collect, moved.suffix, moved.sound, fun _ => moved.errors, nofun⟩

theorem Advances.andThen (first : r.Advances r') (rest : Outcome r' ok r'') :
    Outcome r ok r'' := by
  refine ⟨rest.document.trans first.document, rest.collect.trans first.collect,
    rest.suffix.trans first.suffix, rest.sound, fun same => ?_, fun same => ?_⟩
  · exact (rest.succeeded same).trans first.errors
  · obtain ⟨error, same, within⟩ := rest.failed same
    exact ⟨error, by rw [same, first.errors], first.document ▸ within⟩

theorem Outcome.andThen (first : Outcome r ok r') (rest : r'.Advances r'') :
    Outcome r ok r'' := by
  refine ⟨rest.document.trans first.document, rest.collect.trans first.collect,
    rest.suffix.trans first.suffix, rest.sound, fun same => ?_, fun same => ?_⟩
  · exact rest.errors.trans (first.succeeded same)
  · obtain ⟨error, same, within⟩ := first.failed same
    exact ⟨error, rest.errors.trans same, within⟩

theorem Outcome.advances (outcome : Outcome r true r') : r.Advances r' :=
  ⟨outcome.succeeded rfl, outcome.document, outcome.collect, outcome.suffix, outcome.sound⟩

end outcome

theorem Runs.andThen {α β : Type} {fault : ReaderFault → Prop} {m : Reading α} {r : Reader}
    {k : α → Reading β} {post : α → Reader → Prop} {goal : β → Reader → Prop}
    (first : Runs m r post) (rest : ∀ a r', post a r' → Exec.Meets fault (k a) r' goal) :
    Exec.Meets fault (m >>= k) r goal :=
  Exec.Meets.bind (first.mono_fault nofun) rest

section steps
variable {r : Reader} {token : Token}

theorem addError_runs (sound : r.Sound) (message : String) {extra : Option Location}
    (within : ErrorInfo.Within ⟨token, message, extra⟩ r.document) :
    Runs (addError message token extra) r fun ok r' => ok = false ∧ Outcome r false r' := by
  refine ⟨rfl, rfl, rfl, List.suffix_rfl, ?_, nofun, fun _ => ⟨_, rfl, within⟩⟩
  exact ⟨sound.inside, sound.value, sound.comments⟩

theorem addErrorAndRecover_runs (sound : r.Sound) (message : String) (type : TokenType)
    (within : ErrorInfo.Within ⟨token, message, none⟩ r.document) :
    Runs (addErrorAndRecover message token type) r fun ok r' =>
      ok = false ∧ Outcome r false r' := by
  refine (addError_runs sound message within).bind fun _ r₁ added => ?_
  obtain ⟨-, outcome⟩ := added
  refine (recoverFromError_runs outcome.sound type).mono fun ok r₂ recovered => ?_
  exact ⟨recovered.1, outcome.andThen recovered.2⟩

theorem recordValue_runs (sound : r.Sound) (result : Bool × Value) :
    Runs (recordValue result) r fun result' r' => result' = result ∧ r.Advances r' := by
  rw [recordValue, Runs, Exec.meets_modify_bind, Exec.meets_pure]
  split
  · exact ⟨rfl, rfl, rfl, rfl, List.suffix_rfl, sound.inside, fun _ => rfl, sound.comments⟩
  · exact ⟨rfl, sound.advances⟩

end steps

/-! ## Strings -/

theorem suffix_cons_cons {α : Type} (a b : α) (rest : List α) : rest <:+ a :: b :: rest :=
  (List.suffix_cons b rest).trans (List.suffix_cons a _)

theorem decodeHex_error {count : Nat} {unicode : UInt32} {text left : List Char}
    {message : String} (failed : decodeHex count unicode text = .error (message, left)) :
    left <:+ text := by
  induction count generalizing unicode text with
  | zero => cases failed
  | succ count ih =>
      cases text with
      | nil => cases failed
      | cons c rest =>
          rw [decodeHex] at failed
          split at failed
          · exact (ih failed).trans (List.suffix_cons c rest)
          · cases failed
            exact List.suffix_cons c left

theorem decodeUnicodeEscapeSequence_error {text left : List Char} {message : String}
    (failed : decodeUnicodeEscapeSequence text = .error (message, left)) : left <:+ text := by
  rw [decodeUnicodeEscapeSequence] at failed
  split at failed
  · cases failed
    exact List.suffix_rfl
  · exact decodeHex_error failed

/-- What is left of the string where an error is found. -/
theorem decodeChars_error {skip : Nat} {text decoded left : List Char} {message : String}
    (failed : decodeChars skip text decoded = .error (message, left)) : left <:+ text := by
  fun_induction decodeChars skip text decoded with
  | case1 | case3 => cases failed
  | case2 _ c text _ ih => exact (ih failed).trans (List.suffix_cons c text)
  | case4 c text _ _ _ ih => exact (ih failed).trans (List.suffix_cons c text)
  | case5 =>
      cases failed
      exact List.nil_suffix
  | case14 c decoded _ _ text e escaped =>
      cases failed
      exact (decodeUnicodeEscapeSequence_error escaped).trans (suffix_cons_cons c 'u' text)
  | case15 c decoded _ _ text a escaped ih =>
      exact (ih failed).trans (suffix_cons_cons c 'u' text)
  | case16 c decoded _ _ d text =>
      cases failed
      exact suffix_cons_cons c d left
  | case6 c decoded _ _ text ih | case7 c decoded _ _ text ih | case8 c decoded _ _ text ih
  | case9 c decoded _ _ text ih | case10 c decoded _ _ text ih | case11 c decoded _ _ text ih
  | case12 c decoded _ _ text ih | case13 c decoded _ _ text ih =>
      exact (ih failed).trans (suffix_cons_cons c _ text)

section strings
variable {r : Reader} {token : Token}

theorem decodeStringInto_runs (sound : r.Sound) (start : token.start <:+ r.document)
    (quoted : ∃ inner, token.start = '"' :: inner ++ '"' :: token.stop) :
    Runs (decodeStringInto token) r fun result r' => Outcome r result.isSome r' := by
  obtain ⟨inner, same⟩ := quoted
  have text : between token.start token.stop = '"' :: (inner ++ ['"']) := by
    have split : token.start = '"' :: (inner ++ ['"']) ++ token.stop := by
      rw [same, List.cons_append, List.cons_append, List.append_assoc, List.singleton_append]
    rw [split, between_append]
  rw [decodeStringInto, Runs, text, List.drop_one, List.tail_cons, List.dropLast_concat]
  split
  · exact sound.advances.outcome
  · rename_i message left failed
    refine Exec.Meets.bind (addError_runs sound message ⟨start, ?_, ?_⟩) fun _ r₁ added => added.2
    · rw [same, List.cons_append]
      exact ((List.suffix_cons _ _).trans (List.suffix_append ..)).trans (List.suffix_cons _ _)
    · rintro location ⟨⟩
      obtain ⟨before, rfl⟩ := decodeChars_error failed
      rw [same]
      exact ⟨'"' :: before, by simp⟩

theorem noNul_cString (text : List Char) : '\x00' ∉ (cString text).toList := by
  intro member
  rw [cString, String.toList_ofList] at member
  simpa using List.mem_takeWhile_imp member

theorem decodeString_runs (sound : r.Sound) (start : token.start <:+ r.document)
    (quoted : ∃ inner, token.start = '"' :: inner ++ '"' :: token.stop) {number : Value → Prop}
    {current : Value} (old : current.Shaped number) :
    Runs (decodeString token current) r fun result r' =>
      Outcome r result.1 r' ∧ result.2.Shaped number := by
  rw [decodeString]
  refine (decodeStringInto_runs sound start quoted).bind fun result r₁ outcome => ?_
  cases result with
  | none => exact ⟨outcome, old⟩
  | some decoded => exact ⟨outcome, .stringValue _ (noNul_cString decoded)⟩

end strings
/-! ## Numbers -/

/-- The numbers the reader delivers. The greatest integers of either type become reals, and
a real too large for a double becomes an infinity. -/
def Delivered (double : Rat → Rat) : Value → Prop
  | .intValue int => -2147483639 ≤ int.toInt
  | .uintValue uint => 2147483648 ≤ uint.toNat ∧ uint.toNat ≤ 4294967289
  | .realValue real => ∃ negative size, 0 ≤ size ∧ real = .nearest double negative size
  | _ => True

section numbers
variable (double : Rat → Rat) {r : Reader} {token : Token} {current : Value}

theorem notANumber_runs (sound : r.Sound) (start : token.start <:+ r.document)
    (stop : token.stop <:+ token.start) :
    Runs (notANumber token) r fun ok r' => ok = false ∧ Outcome r false r' :=
  addError_runs sound _ ⟨start, stop, nofun⟩

theorem decodeDouble_runs (sound : r.Sound) (start : token.start <:+ r.document)
    (stop : token.stop <:+ token.start)
    (chars : ∀ c ∈ between token.start token.stop, isNumberChar c = true)
    (old : current.Shaped (Delivered double)) :
    Exec.Meets (Overlong r.document) (decodeDouble double token current) r fun result r' =>
      Outcome r result.1 r' ∧ result.2.Shaped (Delivered double) := by
  rw [decodeDouble]
  dsimp only
  split
  · rename_i long
    refine ⟨long, ?_, chars⟩
    exact ((List.take_prefix ..).isInfix).trans start.isInfix
  · split
    · refine Runs.andThen (notANumber_runs sound start stop) fun ok r' added => ?_
      obtain ⟨rfl, outcome⟩ := added
      exact ⟨outcome, old⟩
    · rename_i value scanned
      exact ⟨sound.advances.outcome, .realValue _ (sscanf_nearest scanned)⟩

theorem decodeNumber_runs (sound : r.Sound) (start : token.start <:+ r.document)
    (stop : token.stop <:+ token.start)
    (chars : ∀ c ∈ between token.start token.stop, isNumberChar c = true)
    (old : current.Shaped (Delivered double)) :
    Exec.Meets (Overlong r.document) (decodeNumber double token current) r fun result r' =>
      Outcome r result.1 r' ∧ result.2.Shaped (Delivered double) := by
  rw [decodeNumber]
  dsimp only
  split
  · exact decodeDouble_runs double sound start stop chars old
  · split
    · refine Runs.andThen (notANumber_runs sound start stop) fun ok r' added => ?_
      obtain ⟨rfl, outcome⟩ := added
      exact ⟨outcome, old⟩
    · exact decodeDouble_runs double sound start stop chars old
    · rename_i value decoded
      split
      · rename_i negative
        rw [if_pos negative] at decoded
        have upper := decodeDigits_le (by decide) (by decide) decoded
        have bound : value.toNat ≤ 2147483639 := upper
        refine ⟨sound.advances.outcome, .intValue _ ?_⟩
        rw [Delivered, toInt_neg_toInt32 (by omega)]
        omega
      · rename_i positive
        rw [if_neg positive] at decoded
        have upper := decodeDigits_le (by decide) (by decide) decoded
        have bound : value.toNat ≤ 4294967289 := upper
        split
        · rename_i small
          have least : value.toNat ≤ 2147483647 := UInt32.le_iff_toNat_le.mp small
          refine ⟨sound.advances.outcome, .intValue _ ?_⟩
          rw [Delivered, toInt_toInt32 (by omega)]
          omega
        · rename_i large
          have greater : 2147483647 < value.toNat :=
            UInt32.lt_iff_toNat_lt.mp (UInt32.not_le.mp large)
          exact ⟨sound.advances.outcome, .uintValue _ ⟨greater, bound⟩⟩

end numbers

/-! ## Values -/

section tokens
variable {token : Token} {text rest document : Location}

theorem ReadFrom_within (read : token.ReadFrom text rest) (inside : text <:+ document)
    (message : String) : ErrorInfo.Within ⟨token, message, none⟩ document :=
  ⟨read.start.trans inside, read.stop ▸ read.inside, nofun⟩

theorem ReadFrom_chars (read : token.ReadFrom text rest) (number : token.type = .tokenNumber) :
    ∀ c ∈ between token.start token.stop, isNumberChar c = true := by
  obtain ⟨c, digits, same, head, all⟩ := read.number number
  rw [same, read.stop, between_append]
  intro d member
  cases List.mem_cons.mp member with
  | inl first =>
      rw [first, isNumberChar]
      cases head with
      | inl digit => rw [digit]; rfl
      | inr sign => rw [sign]; rfl
  | inr later => exact all d later

end tokens

section values
variable (double : Rat → Rat)

/-- What a function that reads a value leaves behind. -/
structure Delivers (r : Reader) (result : Bool × Value) (r' : Reader) : Prop where
  outcome : Outcome r result.1 r'
  shorter : result.1 = true → r'.current.length < r.current.length
  shaped : result.2.Shaped (Delivered double)

def ValueRuns (fuel : Nat) : Prop :=
  ∀ (r : Reader) (current : Value), r.Sound → 2 * r.current.length + 1 ≤ fuel →
    current.Shaped (Delivered double) →
    Exec.Meets (Overlong r.document) (readValue double fuel current) r (Delivers double r)

def ObjectRuns (fuel : Nat) : Prop :=
  ∀ (r : Reader) (name : List Char) (members : List (String × Value)), r.Sound →
    2 * r.current.length + 1 ≤ fuel → (Value.objectValue members).Shaped (Delivered double) →
    Exec.Meets (Overlong r.document) (readObjectLoop double fuel name members) r
      (Delivers double r)

def ArrayRuns (fuel : Nat) : Prop :=
  ∀ (r : Reader) (elements : List Value), r.Sound → 2 * r.current.length + 2 ≤ fuel →
    (Value.arrayValue elements).Shaped (Delivered double) →
    Exec.Meets (Overlong r.document) (readArrayLoop double fuel elements) r (Delivers double r)

variable {double} {fuel : Nat} {r r' r'' : Reader} {result : Bool × Value} {v : Value}

theorem Advances.delivers (moved : r.Advances r') (rest : Delivers double r' result r'') :
    Delivers double r result r'' :=
  ⟨moved.andThen rest.outcome,
    fun ok => Nat.lt_of_lt_of_le (rest.shorter ok) moved.suffix.length_le, rest.shaped⟩

theorem Outcome.failure (outcome : Outcome r false r') (shaped : v.Shaped (Delivered double)) :
    Delivers double r (false, v) r' := ⟨outcome, nofun, shaped⟩

theorem Advances.success (moved : r.Advances r') (shorter : r'.current.length < r.current.length)
    (shaped : v.Shaped (Delivered double)) : Delivers double r (true, v) r' :=
  ⟨moved.outcome, fun _ => shorter, shaped⟩

theorem Delivers.recordValue {fault : ReaderFault → Prop} (delivers : Delivers double r result r') :
    Exec.Meets fault (Reader.recordValue result) r' (Delivers double r) := by
  refine ((recordValue_runs delivers.outcome.sound result).mono ?_).mono_fault nofun
  rintro _ r'' ⟨rfl, moved⟩
  exact ⟨delivers.outcome.andThen moved, fun ok => Nat.lt_of_le_of_lt moved.suffix.length_le
    (delivers.shorter ok), delivers.shaped⟩

theorem readValue_step (object : ObjectRuns double fuel) (array : ArrayRuns double fuel) :
    ValueRuns double (fuel + 1) := by
  intro r current sound enough old
  rw [readValue]
  refine Runs.andThen (skipCommentTokens_runs sound) fun token r₁ first => ?_
  obtain ⟨moved₁, read, -⟩ := first
  refine Runs.andThen (takeCommentsBefore_runs moved₁.sound) fun _ r₂ taken => ?_
  have moved := moved₁.trans taken.1
  have same : r₂.current = r₁.current := taken.2
  have start : token.start <:+ r₂.document :=
    moved.document ▸ read.start.trans sound.inside
  have stop : token.stop <:+ token.start := read.stop ▸ read.inside
  have shorter : token.type ≠ .tokenEndOfStream → r₂.current.length < r.current.length :=
    fun some => same ▸ read.consumed.resolve_right fun ends => some ends.1
  rw [← moved.document]
  have within := ReadFrom_within read (moved.document ▸ sound.inside)
    "Syntax error: value, object or array expected."
  have unexpected : Exec.Meets (Overlong r₂.document) (do
      return (← addError "Syntax error: value, object or array expected." token none, current)) r₂
      (Delivers double r) := by
    refine Runs.andThen (addError_runs moved.sound _ within) fun ok r₃ added => ?_
    obtain ⟨rfl, outcome⟩ := added
    exact (moved.andThen outcome).failure old
  cases type : token.type with
  | tokenObjectBegin =>
      have less := shorter (by rw [type]; decide)
      exact Exec.Meets.bind (object r₂ [] [] moved.sound (by omega) .noMembers) fun _ _ read =>
        (moved.delivers read).recordValue
  | tokenArrayBegin =>
      have less := shorter (by rw [type]; decide)
      have spaces := moved.trans (moved.sound.move (List.dropWhile_suffix isSpace))
      have fewer : (r₂.current.dropWhile isSpace).length ≤ r₂.current.length :=
        List.length_dropWhile_le _ _
      rw [skipSpaces, Exec.meets_modify_bind, Exec.meets_get_bind]
      split
      · refine Runs.andThen (readToken_runs spaces.sound) fun _ r₃ bracket => ?_
        have ends := bracket.1.suffix.length_le
        refine Delivers.recordValue ((spaces.trans bracket.1).success ?_ .noElements)
        exact Nat.lt_of_le_of_lt (ends.trans fewer) less
      · refine Exec.Meets.bind (array _ [] spaces.sound ?_ .noElements) fun _ _ read =>
          (spaces.delivers read).recordValue
        dsimp only
        omega
  | tokenNumber =>
      have less := shorter (by rw [type]; decide)
      refine Exec.Meets.bind (decodeNumber_runs double moved.sound start stop
        (ReadFrom_chars read type) old) fun result r₃ decoded => ?_
      refine Delivers.recordValue ⟨moved.andThen decoded.1, fun _ => ?_, decoded.2⟩
      exact Nat.lt_of_le_of_lt decoded.1.suffix.length_le less
  | tokenString =>
      have less := shorter (by rw [type]; decide)
      obtain ⟨inner, quoted⟩ := read.string type
      have ends : token.start = '"' :: inner ++ '"' :: token.stop := by rw [read.stop, quoted]
      refine Runs.andThen (decodeString_runs moved.sound start ⟨inner, ends⟩ old)
        fun result r₃ decoded => ?_
      refine Delivers.recordValue ⟨moved.andThen decoded.1, fun _ => ?_, decoded.2⟩
      exact Nat.lt_of_le_of_lt decoded.1.suffix.length_le less
  | tokenTrue | tokenFalse | tokenNull =>
      have less := shorter (by rw [type]; decide)
      exact Delivers.recordValue (moved.success less (by constructor))
  | tokenEndOfStream | tokenObjectEnd | tokenArrayEnd | tokenArraySeparator
  | tokenMemberSeparator | tokenComment | tokenError => exact unexpected

/-- The error is reported where the token was read, and the rest is skipped. -/
theorem addErrorAndRecover_delivers {token : Token} {text : Location} (moved : r.Advances r')
    (read : token.ReadFrom text r'.current) (inside : text <:+ r.document) (message : String)
    (type : TokenType) (shaped : v.Shaped (Delivered double)) {fault : ReaderFault → Prop} :
    Exec.Meets fault (do return (← addErrorAndRecover message token type, v)) r'
      (Delivers double r) := by
  have within := ReadFrom_within read (moved.document ▸ inside) message
  refine Runs.andThen (addErrorAndRecover_runs moved.sound message type within) ?_
  rintro _ r₂ ⟨rfl, outcome⟩
  exact (moved.andThen outcome).failure shaped

/-- The error has been reported where it was found. -/
theorem recoverFromError_delivers (failed : Outcome r false r') (type : TokenType)
    (shaped : v.Shaped (Delivered double)) {fault : ReaderFault → Prop} :
    Exec.Meets fault (do return (← recoverFromError type, v)) r' (Delivers double r) := by
  refine Runs.andThen (recoverFromError_runs failed.sound type) ?_
  rintro _ r₂ ⟨rfl, moved⟩
  exact (failed.andThen moved).failure shaped

theorem skipCommentsFrom_runs {token : Token} (sound : r.Sound) :
    Runs (skipCommentsFrom token) r fun _ r' => r.Advances r' := by
  rw [skipCommentsFrom]
  split
  · exact (skipCommentTokens_runs sound).mono fun _ _ read => read.1
  · exact sound.advances

theorem readArrayLoop_step (value : ValueRuns double fuel) (array : ArrayRuns double fuel) :
    ArrayRuns double (fuel + 1) := by
  intro r elements sound enough old
  rw [readArrayLoop]
  refine Exec.Meets.bind (value r .nullValue sound (by omega) .nullValue) ?_
  rintro ⟨ok, v⟩ r₁ ⟨outcome, less, shaped⟩
  have longer := old.append shaped
  cases ok with
  | false => exact recoverFromError_delivers outcome _ longer
  | true =>
      have moved := outcome.advances
      have shorter := less rfl
      refine Runs.andThen (readToken_runs moved.sound) fun token r₂ read => ?_
      have moved₂ := moved.trans read.1
      have before := read.1.suffix.length_le
      split
      · exact addErrorAndRecover_delivers moved₂ read.2 (moved.suffix.trans sound.inside) _ _ longer
      · split
        · exact moved₂.success (Nat.lt_of_le_of_lt before shorter) longer
        · rw [← moved₂.document]
          refine Exec.Meets.mono (array r₂ (elements ++ [v]) moved₂.sound (by omega) longer) ?_
          exact fun _ _ read => moved₂.delivers read

theorem readObjectLoop_step (value : ValueRuns double fuel) (object : ObjectRuns double fuel) :
    ObjectRuns double (fuel + 1) := by
  intro r name members sound enough old
  rw [readObjectLoop]
  refine Runs.andThen (skipCommentTokens_runs sound) fun tokenName r₁ first => ?_
  obtain ⟨moved₁, read₁, -⟩ := first
  have shorter : tokenName.type ≠ .tokenEndOfStream → r₁.current.length < r.current.length :=
    fun some => read₁.consumed.resolve_right fun ends => some ends.1
  split
  · rename_i ends
    exact moved₁.success (shorter (by rw [ends.1]; nofun)) old
  split
  · exact addErrorAndRecover_delivers moved₁ read₁ sound.inside _ _ old
  rename_i string
  have type : tokenName.type = .tokenString := Decidable.not_not.mp string
  have less := shorter (by rw [type]; nofun)
  have start : tokenName.start <:+ r₁.document :=
    moved₁.document ▸ read₁.start.trans sound.inside
  obtain ⟨inner, quoted⟩ := read₁.string type
  have ends : tokenName.start = '"' :: inner ++ '"' :: tokenName.stop := by
    rw [read₁.stop, quoted]
  refine Runs.andThen (decodeStringInto_runs moved₁.sound start ⟨inner, ends⟩)
    fun result r₂ named => ?_
  cases result with
  | none => exact recoverFromError_delivers (moved₁.andThen named) _ old
  | some name =>
      have moved₂ := moved₁.trans named.advances
      have before₂ := named.suffix.length_le
      refine Runs.andThen (readToken_runs moved₂.sound) fun colon r₃ read₃ => ?_
      have moved₃ := moved₂.trans read₃.1
      have before₃ := read₃.1.suffix.length_le
      dsimp only
      split
      · exact addErrorAndRecover_delivers moved₃ read₃.2 (moved₂.suffix.trans sound.inside) _ _ old
      rw [← moved₃.document]
      refine Exec.Meets.bind (value r₃ _ moved₃.sound (by omega) old.member) ?_
      rintro ⟨ok, v⟩ r₄ ⟨outcome, lessValue, shaped⟩
      have updated := old.update (noNul_cString name) shaped
      cases ok with
      | false => exact recoverFromError_delivers (moved₃.andThen outcome) _ updated
      | true =>
          have moved₄ := moved₃.trans outcome.advances
          have before₄ := lessValue rfl
          refine Runs.andThen (readToken_runs moved₄.sound) fun comma r₅ read₅ => ?_
          have moved₅ := moved₄.trans read₅.1
          have before₅ := read₅.1.suffix.length_le
          split
          · exact addErrorAndRecover_delivers moved₅ read₅.2
              (moved₄.suffix.trans sound.inside) _ _ updated
          · refine Runs.andThen (skipCommentsFrom_runs moved₅.sound) fun comma r₆ moved₆ => ?_
            have through := moved₅.trans moved₆
            have before₆ := moved₆.suffix.length_le
            split
            · exact through.success (by omega) updated
            · rw [moved₃.document, ← through.document]
              refine Exec.Meets.mono (object r₆ name _ through.sound (by omega) updated) ?_
              exact fun _ _ read => through.delivers read

theorem reads (fuel : Nat) :
    ValueRuns double fuel ∧ ObjectRuns double fuel ∧ ArrayRuns double fuel := by
  induction fuel with
  | zero =>
      refine ⟨fun r _ _ enough => ?_, fun r _ _ _ enough => ?_, fun r _ _ enough => ?_⟩ <;> omega
  | succ fuel ih =>
      obtain ⟨value, object, array⟩ := ih
      exact ⟨readValue_step object array, readObjectLoop_step value object,
        readArrayLoop_step value array⟩

end values

/-! ## Documents -/

section documents
variable (double : Rat → Rat) (document : List Char) {root : Value} (collectComments : Bool)

/-- What a parse ends with: the root and the errors, or the one fault. -/
def Parsed : Except ReaderFault (Bool × Value × List ErrorInfo) → Prop
  | .ok (successful, root, errors) => root.Shaped (Delivered double) ∧
      (successful = true ∧ errors = [] ∨
        successful = false ∧ ∃ error : ErrorInfo, errors = [error] ∧ error.Within document)
  | .error fault => Overlong document fault

theorem readDocument_meets {r : Reader} (sound : r.Sound)
    (shaped : root.Shaped (Delivered double)) :
    Exec.Meets (Overlong r.document) (readDocument double (2 * r.current.length + 1) root) r
      fun result r' => Outcome r result.1 r' ∧ result.2.Shaped (Delivered double) := by
  rw [readDocument]
  refine Exec.Meets.bind ((reads _).1 r root sound (Nat.le_refl _) shaped) fun result r₁ read => ?_
  refine Runs.andThen (skipCommentTokens_runs read.outcome.sound) fun _ r₂ comments => ?_
  refine Runs.andThen (takeCommentsBefore_runs comments.1.sound) fun _ r₃ taken => ?_
  exact ⟨read.outcome.andThen (comments.1.trans taken.1), read.shaped⟩

theorem parse_parsed (shaped : root.Shaped (Delivered double)) :
    Parsed double document (parse double document root collectComments) := by
  have start : Reader.Sound ⟨[], document, document, none, false, [], collectComments⟩ :=
    ⟨List.suffix_rfl, nofun, .inl rfl⟩
  have meets := readDocument_meets double start shaped
  rw [Exec.Meets] at meets
  rw [parse]
  split at meets
  · rename_i result r' run
    rw [run]
    obtain ⟨outcome, shaped⟩ := meets
    refine ⟨shaped, ?_⟩
    cases successful : result.1 with
    | true => exact .inl ⟨rfl, outcome.succeeded successful⟩
    | false => exact .inr ⟨rfl, outcome.failed successful⟩
  · rename_i fault run
    rw [run]
    exact meets

variable {successful : Bool} {errors : List ErrorInfo}

/-- A parse of any document comes to an end. Its one fault is a numeral as long as the
buffer it is copied to. -/
theorem parse_ends :
    (∃ outcome, parse double document .nullValue collectComments = .ok outcome) ∨
      ∃ text, parse double document .nullValue collectComments = .error (.bufferOverrun text) ∧
        text.length = 32 ∧ text <:+: document ∧ ∀ c ∈ text, isNumberChar c = true := by
  have parsed := parse_parsed double document collectComments .nullValue
  cases ends : parse double document .nullValue collectComments with
  | ok outcome => exact .inl ⟨outcome, rfl⟩
  | error fault =>
      rw [ends] at parsed
      cases fault with
      | bufferOverrun text => exact .inr ⟨text, rfl, parsed⟩
      | thrown | outOfFuel => exact parsed.elim

/-- A parse fails exactly when it reports an error. It reports one at most, and where
it was found in the document. -/
theorem parse_reports (ends : parse double document .nullValue collectComments =
    .ok (successful, root, errors)) :
    (successful = true ↔ errors = []) ∧ errors.length ≤ 1 ∧
      ∀ error ∈ errors, error.Within document := by
  have parsed := parse_parsed double document collectComments .nullValue
  rw [ends] at parsed
  obtain ⟨-, ⟨rfl, rfl⟩ | ⟨rfl, error, rfl, within⟩⟩ := parsed
  · exact ⟨⟨fun _ => rfl, fun _ => rfl⟩, Nat.zero_le 1, nofun⟩
  · refine ⟨⟨nofun, nofun⟩, Nat.le_refl 1, fun other member => ?_⟩
    rw [List.mem_singleton.mp member]
    exact within

/-- An array that is not closed: the end of the stream is where its value was expected. -/
def openArray : List ErrorInfo :=
  [⟨⟨.tokenEndOfStream, [], []⟩, "Syntax error: value, object or array expected.", none⟩]

theorem parse_reports_open_array :
    (false = true ↔ openArray = []) ∧ openArray.length ≤ 1 ∧
      ∀ error ∈ openArray, error.Within ['['] :=
  parse_reports id ['['] true (by rfl)

/-- Whatever the document, the value it leaves behind is well shaped: no string or name
has a NUL inside, members are in order and of different names, and a number lies
within the bounds the reader keeps to. -/
theorem parse_delivers (ends : parse double document .nullValue collectComments =
    .ok (successful, root, errors)) : root.Shaped (Delivered double) := by
  have parsed := parse_parsed double document collectComments .nullValue
  rw [ends] at parsed
  exact parsed.1

theorem parse_delivers_member :
    (Value.objectValue [("a", .intValue 7)]).Shaped (Delivered id) :=
  parse_delivers id ['{', '"', 'a', '"', ':', '7', '}'] true (by rfl)

end documents
end Reader
end AsyncPing
