import AsyncPing.Metatheory.LayoutTokens
import AsyncPing.Metatheory.ReaderRuns
import AsyncPing.Metatheory.ValueJson

/-!
The reader accepts every layout of a JSON value, with comments before values and
names and behind the value of a member. What it reads is the value laid out, with its
numbers rounded and the members of its objects put in order.
-/
namespace AsyncPing
namespace Reader
open JsonText

/-- The numerals that do not overrun the buffer of `decodeDouble`. -/
def Fits (n : Numeral) : Prop := n.text.length ≠ bufferSize

/-! ## Numbers -/

section numbers
variable {double : Rat → Rat} {n : Numeral}

theorem value_integer (fraction : n.fraction = none) (exponent : n.exponent = none) :
    n.value = (if n.negative then -(ofDigits n.whole : Int) else ofDigits n.whole : Int) := by
  have size : n.size = ofDigits n.whole := by
    rw [Numeral.size, Numeral.scale, Numeral.decimals, fraction, exponent]
    simp
  rw [Numeral.value, size]
  split <;> simp

theorem decodeDouble_numeral (rounding : Exact double) (fits : Fits n) {token : Token}
    (same : between token.start token.stop = n.text) (current : Value) (r : Reader) :
    ∃ v : Value, decodeDouble double token current r = .ok ((true, v), r) ∧
      v.json = .number (.read double n.value) := by
  refine ⟨.realValue (.nearest double n.negative n.size), ?_, ?_⟩
  · rw [decodeDouble]
    dsimp only
    rw [same, if_neg fits, sscanf_text]
    rfl
  · exact congrArg Json.number (Double.unsigned_nearest_eq_read rounding.zero n.size_nonneg)

theorem toNat_ofDigits {digits : List Char} (bound : ofDigits digits < 4294967296) :
    (UInt32.ofNat (ofDigits digits)).toNat = ofDigits digits :=
  UInt32.toNat_ofNat_of_lt' bound

theorem decodeNumber_numeral (rounding : Exact double) (fits : Fits n) (token : Token)
    (same : between token.start token.stop = n.text) (current : Value) (r : Reader) :
    ∃ v : Value, decodeNumber double token current r = .ok ((true, v), r) ∧
      v.json = .number (.read double n.value) := by
  rw [decodeNumber]
  dsimp only
  rw [same]
  by_cases integral : n.fraction = none ∧ n.exponent = none
  · obtain ⟨text, integer⟩ := isDouble_integer integral.1 integral.2
    have value := value_integer integral.1 integral.2
    rw [integer, if_neg Bool.false_ne_true, text, Numeral.sign]
    cases negative : n.negative with
    | true =>
        rw [negative, if_pos rfl] at value
        have sign : deref ('-' :: n.whole) = '-' := rfl
        rw [if_pos rfl, List.singleton_append, if_pos sign, if_pos sign, List.drop_one,
          List.tail_cons, decodeDigits_ofDigits (by decide) n.digital n.nonempty]
        split
        · exact decodeDouble_numeral rounding fits same current r
        · rename_i small
          have bound : ofDigits n.whole < 2147483640 := Nat.lt_of_not_le small
          have held := toNat_ofDigits (Nat.lt_trans bound (by decide))
          refine ⟨_, rfl, ?_⟩
          rw [Value.json, toInt_neg_toInt32 (by omega), held, value,
            Double.read_int rounding (by omega)]
    | false =>
        rw [negative, if_neg Bool.false_ne_true] at value
        have sign : deref n.whole ≠ '-' := by
          obtain ⟨c, digits, whole⟩ := List.exists_cons_of_ne_nil n.nonempty
          rw [whole]
          rintro rfl
          exact digit_sign n.digital whole rfl
        rw [if_neg Bool.false_ne_true, List.nil_append, if_neg sign, if_neg sign,
          decodeDigits_ofDigits (by decide) n.digital n.nonempty]
        split
        · exact decodeDouble_numeral rounding fits same current r
        · rename_i small
          have bound : ofDigits n.whole < 4294967290 := Nat.lt_of_not_le small
          have held := toNat_ofDigits (Nat.lt_trans bound (by decide))
          have rounded := Double.read_int rounding (n := ofDigits n.whole) (by omega)
          dsimp only
          split
          · rename_i least
            have less : (UInt32.ofNat (ofDigits n.whole)).toNat ≤ 2147483647 :=
              UInt32.le_iff_toNat_le.mp least
            refine ⟨_, rfl, ?_⟩
            rw [Value.json, toInt_toInt32 (by omega), held, value, rounded]
          · refine ⟨_, rfl, ?_⟩
            rw [Value.json, held, value, rounded]
            rfl
  · rw [isDouble_other integral, if_pos rfl]
    exact decodeDouble_numeral rounding fits same current r

end numbers
/-! ## Strings -/

theorem quoted_nonempty {content text : List Char} (quoted : Quoted content text) : text ≠ [] := by
  cases quoted <;> exact List.cons_ne_nil _ _

theorem decodeChars_plain {c : Char} (noQuote : c ≠ '"') (noEscape : c ≠ '\\')
    (text decoded : List Char) :
    decodeChars 0 (c :: text) decoded = decodeChars 0 text (decoded ++ [c]) := by
  rw [decodeChars.eq_def]
  exact (if_neg noQuote).trans (if_pos noEscape)

theorem decodeChars_escaped {code c : Char} (known : (code, c) ∈ escapes)
    (text decoded : List Char) :
    decodeChars 0 ('\\' :: code :: text) decoded = decodeChars 0 text (decoded ++ [c]) := by
  rw [escapes] at known
  simp only [List.mem_cons, List.not_mem_nil, or_false, Prod.mk.injEq] at known
  rcases known with ⟨rfl, rfl⟩ | ⟨rfl, rfl⟩ | ⟨rfl, rfl⟩ | ⟨rfl, rfl⟩ | ⟨rfl, rfl⟩ | ⟨rfl, rfl⟩ |
    ⟨rfl, rfl⟩ | ⟨rfl, rfl⟩ <;> rfl

theorem decodeChars_quoted {content text : List Char} (quoted : Quoted content text)
    (decoded : List Char) : decodeChars 0 text.dropLast decoded = .ok (decoded ++ content) := by
  induction quoted generalizing decoded with
  | close =>
      rw [List.append_nil]
      rfl
  | plain c noQuote noEscape _ rest ih =>
      rw [List.dropLast_cons_of_ne_nil (quoted_nonempty rest), decodeChars_plain noQuote noEscape,
        ih, List.append_assoc, List.singleton_append]
  | escaped code c known rest ih =>
      have some := quoted_nonempty rest
      rw [List.dropLast_cons_of_ne_nil (List.cons_ne_nil code _), List.dropLast_cons_of_ne_nil some,
        decodeChars_escaped known, ih, List.append_assoc, List.singleton_append]

theorem decodeStringInto_quoted {content text : List Char} (quoted : Quoted content text)
    (rest : Location) (r : Reader) :
    decodeStringInto ⟨.tokenString, '"' :: (text ++ rest), rest⟩ r = .ok (some content, r) := by
  have same : between ('"' :: (text ++ rest)) rest = '"' :: text := by
    rw [← List.cons_append, between_append]
  rw [decodeStringInto, same, List.drop_one, List.tail_cons, decodeChars_quoted quoted]
  rfl

theorem escapes_noNul : ∀ e ∈ escapes, e.2 ≠ '\x00' := by simp [escapes]

theorem quoted_noNul {content text : List Char} (quoted : Quoted content text) :
    ∀ c ∈ content, c ≠ '\x00' := by
  induction quoted with
  | close => nofun
  | plain c _ _ noNul _ ih =>
      intro d member
      cases List.mem_cons.mp member with
      | inl head => exact head ▸ noNul
      | inr later => exact ih d later
  | escaped code c known _ ih =>
      intro d member
      cases List.mem_cons.mp member with
      | inl head => exact head ▸ escapes_noNul _ known
      | inr later => exact ih d later

theorem toList_cString {content text : List Char} (quoted : Quoted content text) :
    (cString content).toList = content := by
  have all : content.takeWhile (· ≠ '\x00') = content :=
    List.takeWhile_eq_self_iff.mpr fun c member => decide_eq_true (quoted_noNul quoted c member)
  rw [cString, String.toList_ofList, all]

/-! ## Values -/

section values
variable (double : Rat → Rat)

/-- The value laid out has been read, up to the rest. -/
structure Accepted (r : Reader) (j : Json Double) (rest : Location) (result : Bool × Value)
    (r' : Reader) : Prop where
  advances : r.Advances r'
  successful : result.1 = true
  json : result.2.json = j
  current : r'.current = rest

/-- From any place in the filler before it. -/
def AcceptsValue (j : Json Rat) (text : List Char) : Prop :=
  ∀ (r : Reader) (before rest : Location) (fuel : Nat) (old : Value), Filler before → Ends rest →
    r.Sound → trim r.current = trim (before ++ (text ++ rest)) →
    2 * r.current.length + 1 ≤ fuel →
    Runs (readValue double fuel old) r (Accepted r (normal double j) rest)

def AcceptsElements (js : List (Json Rat)) (text : List Char) : Prop :=
  ∀ (r : Reader) (rest : Location) (fuel : Nat) (elements : List Value), r.Sound →
    trim r.current = trim (text ++ rest) → 2 * r.current.length + 2 ≤ fuel →
    Runs (readArrayLoop double fuel elements) r (Accepted r
      (.array (Value.jsonElements elements ++ normalElements double js)) rest)

def AcceptsMembers (ms : List (List Char × Json Rat)) (text : List Char) : Prop :=
  ∀ (r : Reader) (rest : Location) (fuel : Nat) (name : List Char)
    (members : List (String × Value)), r.Sound → trim r.current = trim (text ++ rest) →
    2 * r.current.length + 1 ≤ fuel →
    Runs (readObjectLoop double fuel name members) r (Accepted r
      (.object (collect (Value.jsonMembers members) (normalMembers double ms))) rest)

def Accepts : Form → List Char → Prop
  | .value j => AcceptsValue double j
  | .elements js => AcceptsElements double js
  | .members ms => AcceptsMembers double ms

variable {double} {r r' r'' : Reader} {said : Json Double} {j : Json Rat} {text rest : Location}
  {result : Bool × Value}

theorem Accepted.after (accepted : Accepted r' said rest result r'') (moved : r.Advances r') :
    Accepted r said rest result r'' :=
  ⟨moved.trans accepted.advances, accepted.successful, accepted.json, accepted.current⟩

theorem Accepted.record (accepted : Accepted r said rest result r') :
    Runs (recordValue result) r' (Accepted r said rest) := by
  have same : Exec.Meets (fun _ => True) (recordValue result) r' fun _ r'' =>
      r''.current = r'.current := by
    rw [recordValue, Exec.meets_modify_bind, Exec.meets_pure]
    split <;> rfl
  refine ((recordValue_runs accepted.advances.sound result).both same).mono ?_
  rintro _ r'' ⟨⟨rfl, moved⟩, kept⟩
  exact ⟨accepted.advances.trans moved, accepted.successful, accepted.json,
    kept.trans accepted.current⟩

/-- What `readValue` does with the first token of the value. -/
def readTyped (double : Rat → Rat) (fuel : Nat) (current : Value) (token : Token) :
    Reading (Bool × Value) := do
  match token.type with
  | .tokenObjectBegin => recordValue (← readObjectLoop double fuel [] [])
  | .tokenArrayBegin =>
    skipSpaces
    let r ← get
    if deref r.current = ']' then
      let _ ← readToken
      recordValue (true, .arrayValue [])
    else recordValue (← readArrayLoop double fuel [])
  | .tokenNumber => recordValue (← decodeNumber double token current)
  | .tokenString => recordValue (← decodeString token current)
  | .tokenTrue => recordValue (true, .booleanValue true)
  | .tokenFalse => recordValue (true, .booleanValue false)
  | .tokenNull => recordValue (true, .nullValue)
  | _ =>
    return (← addError "Syntax error: value, object or array expected." token none, current)

theorem readValue_eq (double : Rat → Rat) (fuel : Nat) (current : Value) :
    readValue double (fuel + 1) current = (do
      let token ← skipCommentTokens
      takeCommentsBefore
      readTyped double fuel current token) := by
  rw [readValue]
  rfl

/-- It is enough to go on from the first token of the value. -/
theorem acceptsValue_of_token (type : TokenType) (other : type ≠ .tokenComment)
    (read : ∀ rest, Ends rest → ∃ behind, Scans type (text ++ rest) behind ∧
      ∀ (r : Reader) (fuel : Nat) (old : Value), r.Sound → r.current = behind →
        2 * r.current.length + 2 ≤ fuel →
        Runs (readTyped double fuel old ⟨type, text ++ rest, behind⟩) r
          (Accepted r (normal double j) rest)) :
    AcceptsValue double j text := by
  intro r before rest fuel old filler ends sound here enough
  obtain ⟨behind, scans, goesOn⟩ := read rest ends
  cases fuel with
  | zero => omega
  | succ fuel =>
      rw [readValue_eq]
      refine (skipCommentTokens_reads filler scans other sound here).bind ?_
      rintro _ r₁ ⟨moved, rfl, current, less⟩
      refine (takeCommentsBefore_runs moved.sound).bind fun _ r₂ taken => ?_
      have same : r₂.current = behind := taken.2.trans current
      refine (goesOn r₂ fuel old taken.1.sound same ?_).mono fun _ _ accepted =>
        accepted.after (moved.trans taken.1)
      rw [taken.2]
      omega

theorem accepts_string {content quoted : List Char} (isString : Quoted content quoted) :
    AcceptsValue double (.string content) ('"' :: quoted) := by
  refine acceptsValue_of_token .tokenString (by decide) fun rest _ => ?_
  refine ⟨rest, scans_string rest isString, fun r fuel old sound current _ => ?_⟩
  have decoded := decodeStringInto_quoted isString rest r
  change Runs (do recordValue (← decodeString _ old)) r _
  refine Exec.Meets.bind (?_ : Runs _ r (Accepted r (.string content) rest)) ?_
  · exact Exec.Meets.bind_of_run decoded ⟨sound.advances, rfl, by
      rw [Value.json, toList_cString isString], current⟩
  · exact fun _ _ accepted => accepted.record

theorem accepts_number (rounding : Exact double) (n : Numeral) (fits : Fits n) :
    AcceptsValue double (.number n.value) n.text := by
  refine acceptsValue_of_token .tokenNumber (by decide) fun rest ends => ?_
  obtain ⟨c, chars, text, head⟩ := text_cons n
  have all := number_chars n
  rw [text] at all
  have scans := scans_number rest head (fun d member => all d (List.mem_cons_of_mem c member)) ends
  rw [← List.cons_append, ← text] at scans
  refine ⟨rest, scans, fun r fuel old sound current _ => ?_⟩
  obtain ⟨v, decoded, json⟩ := decodeNumber_numeral rounding fits ⟨.tokenNumber, _, rest⟩
    (between_append n.text rest) old r
  refine Exec.Meets.bind_of_run decoded ?_
  exact Accepted.record ⟨sound.advances, rfl, json, current⟩

theorem accepts_word {type : TokenType} {v : Value} {word : List Char}
    (scans : ∀ rest, Scans type (word ++ rest) rest) (other : type ≠ .tokenComment)
    (typed : ∀ fuel old token, token.type = type →
      readTyped double fuel old token = recordValue (true, v))
    (same : v.json = normal double j) : AcceptsValue double j word := by
  refine acceptsValue_of_token type other fun rest _ => ?_
  refine ⟨rest, scans rest, fun r fuel old sound current _ => ?_⟩
  rw [typed fuel old _ rfl]
  exact Accepted.record ⟨sound.advances, rfl, same, current⟩

/-! ### Arrays -/

theorem accepts_emptyArray {gap : List Char} (isGap : Blank gap) :
    AcceptsValue double (.array []) ('[' :: (gap ++ [']'])) := by
  refine acceptsValue_of_token .tokenArrayBegin (by decide) fun rest _ => ?_
  refine ⟨gap ++ [']'] ++ rest, scans_arrayBegin _, fun r fuel old sound current _ => ?_⟩
  have bracket : trim r.current = ']' :: rest := by
    rw [current, List.append_assoc, trim_blank isGap]
    rfl
  have spaces := sound.move (List.dropWhile_suffix isSpace)
  change Runs (do skipSpaces; let r ← get; _) r _
  rw [skipSpaces, Runs, Exec.meets_modify_bind, Exec.meets_get_bind]
  rw [if_pos (by rw [show r.current.dropWhile isSpace = _ from bracket]; rfl)]
  refine (readToken_reads (scans_arrayEnd rest) spaces.sound ?_).bind ?_
  · rw [trim_trim, bracket]
  · rintro _ r' ⟨moved, -, current, -⟩
    exact Accepted.record ⟨spaces.trans moved, rfl, rfl, current⟩

theorem value_head {j : Json Rat} {text : List Char} (layout : Layout Fits (.value j) text) :
    ∃ c tail, text = c :: tail ∧ isSpace c = false ∧ c ≠ ']' := by
  cases layout with
  | number n fits =>
      obtain ⟨c, chars, text, head⟩ := text_cons n
      refine ⟨c, chars, text, visible_number head, ?_⟩
      rintro rfl
      exact absurd head (by decide)
  | null | true | false | string | emptyArray | array | emptyObject | object =>
      exact ⟨_, _, rfl, rfl, by decide⟩

theorem filler_open {before text : List Char} (filler : Filler before) {c : Char}
    {tail : List Char} (head : text = c :: tail) (visible : isSpace c = false) (other : c ≠ ']') :
    deref (trim (before ++ text)) ≠ ']' := by
  cases filler with
  | blank gap isGap =>
      rw [trim_blank isGap, head, trim_cons visible]
      exact other
  | block gap body isGap =>
      rw [trim_block isGap]
      exact (by decide : '/' ≠ ']')
  | line gap body stop isGap =>
      rw [trim_line isGap]
      exact (by decide : '/' ≠ ']')

/-- The elements do not start with a closing bracket. -/
theorem elements_open {js : List (Json Rat)} {text : List Char}
    (layout : Layout Fits (.elements js) text) (rest : List Char) :
    deref (trim (text ++ rest)) ≠ ']' := by
  cases layout with
  | lastElement filler value isGap | element filler value isGap =>
      obtain ⟨c, tail, rfl, visible, other⟩ := value_head value
      rw [List.append_assoc]
      exact filler_open filler rfl visible other

theorem accepts_array {js : List (Json Rat)} {text : List Char}
    (layout : Layout Fits (.elements js) text) (inside : AcceptsElements double js text) :
    AcceptsValue double (.array js) ('[' :: text) := by
  refine acceptsValue_of_token .tokenArrayBegin (by decide) fun rest _ => ?_
  refine ⟨text ++ rest, scans_arrayBegin _, fun r fuel old sound current enough => ?_⟩
  have spaces := sound.move (List.dropWhile_suffix isSpace)
  have fewer : (r.current.dropWhile isSpace).length ≤ r.current.length :=
    List.length_dropWhile_le ..
  change Runs (do skipSpaces; let r ← get; _) r _
  rw [skipSpaces, Runs, Exec.meets_modify_bind, Exec.meets_get_bind]
  rw [if_neg (by rw [current]; exact elements_open layout rest)]
  refine (inside _ rest fuel [] spaces.sound ?_ ?_).bind fun _ _ accepted =>
    (accepted.after spaces).record
  · exact (trim_trim _).trans (congrArg trim current)
  · dsimp only
    omega

theorem accepts_emptyObject {gap : List Char} (isGap : Filler gap) :
    AcceptsValue double (.object []) ('{' :: (gap ++ ['}'])) := by
  refine acceptsValue_of_token .tokenObjectBegin (by decide) fun rest _ => ?_
  refine ⟨gap ++ ['}'] ++ rest, scans_objectBegin _, fun r fuel old sound current enough => ?_⟩
  cases fuel with
  | zero => omega
  | succ fuel =>
      change Runs (do recordValue (← readObjectLoop double (fuel + 1) [] [])) r _
      rw [readObjectLoop]
      refine Exec.Meets.bind (?_ : Runs _ r (Accepted r (.object []) rest)) fun _ _ accepted =>
        accepted.record
      refine (skipCommentTokens_reads isGap (scans_objectEnd rest) (by decide) sound ?_).bind ?_
      · rw [current, List.append_assoc]
        rfl
      · rintro _ r' ⟨moved, rfl, current, -⟩
        rw [if_pos ⟨rfl, rfl⟩]
        exact ⟨moved, rfl, rfl, current⟩

theorem accepts_object {ms : List (List Char × Json Rat)} {text : List Char}
    (inside : AcceptsMembers double ms text) : AcceptsValue double (.object ms) ('{' :: text) := by
  refine acceptsValue_of_token .tokenObjectBegin (by decide) fun rest _ => ?_
  refine ⟨text ++ rest, scans_objectBegin _, fun r fuel old sound current enough => ?_⟩
  change Runs (do recordValue (← readObjectLoop double fuel [] [])) r _
  exact (inside r rest fuel [] [] sound (congrArg trim current) (by omega)).bind
    fun _ _ accepted => accepted.record

/-! ### Elements -/

theorem ends_blank {gap : List Char} (isGap : Blank gap) {c : Char}
    (other : isNumberChar c = false) (rest : Location) : Ends (gap ++ c :: rest) := by
  intro d head
  cases gap with
  | nil =>
      cases head
      exact other
  | cons b gap =>
      have blank : isSpace d = true := isGap d (Option.some.inj head ▸ List.mem_cons_self)
      rw [isSpace, decide_eq_true_iff] at blank
      rcases blank with rfl | rfl | rfl | rfl <;> rfl

theorem ends_filler {before : List Char} (filler : Filler before) {c : Char}
    (other : isNumberChar c = false) (rest : Location) : Ends (before ++ c :: rest) := by
  cases filler with
  | blank gap isGap => exact ends_blank isGap other rest
  | block gap body isGap =>
      rw [List.append_assoc, List.cons_append]
      exact ends_blank isGap rfl _
  | line gap body stop isGap =>
      rw [List.append_assoc, List.cons_append]
      exact ends_blank isGap rfl _

/-- One round of the loop of `readArray`: an element and the comma or bracket behind it. -/
theorem readArrayLoop_element {before after rest : List Char} {c : Char} {type : TokenType}
    (filler : Filler before) (value : AcceptsValue double j text) (isGap : Blank after)
    (scans : Scans type (c :: rest) rest) (noNumber : isNumberChar c = false)
    (known : type = .tokenArraySeparator ∨ type = .tokenArrayEnd) (sound : r.Sound)
    (here : trim r.current = trim (before ++ (text ++ (after ++ c :: rest)))) {fuel : Nat}
    (enough : 2 * r.current.length + 2 ≤ fuel + 1) (elements : List Value)
    {goal : Bool × Value → Reader → Prop}
    (goesOn : ∀ (r' : Reader) (v : Value), r.Advances r' → v.json = normal double j →
      r'.current = rest → r'.current.length < r.current.length →
      Runs (if type = .tokenArrayEnd then return (true, .arrayValue (elements ++ [v]))
        else readArrayLoop double fuel (elements ++ [v])) r' goal) :
    Runs (readArrayLoop double (fuel + 1) elements) r goal := by
  have ends := ends_blank isGap noNumber rest
  rw [readArrayLoop]
  refine (value r before _ fuel .nullValue filler ends sound here (by omega)).bind ?_
  rintro ⟨ok, v⟩ r₁ ⟨moved, rfl, json, current⟩
  have next : trim r₁.current = c :: rest := by
    rw [current, trim_blank isGap, scans.trimmed]
  refine (readToken_reads scans moved.sound next).bind ?_
  rintro _ r₂ ⟨moved', rfl, current', less⟩
  have goes : ¬(type ≠ .tokenArraySeparator ∧ type ≠ .tokenArrayEnd) := by tauto
  dsimp only
  rw [if_neg goes]
  exact goesOn r₂ v (moved.trans moved') json current'
    (Nat.lt_of_lt_of_le less moved.suffix.length_le)

theorem accepts_lastElement {before after : List Char} (filler : Filler before)
    (value : AcceptsValue double j text) (isGap : Blank after) :
    AcceptsElements double [j] (before ++ (text ++ (after ++ [']']))) := by
  intro r rest fuel elements sound here enough
  cases fuel with
  | zero => omega
  | succ fuel =>
      simp only [List.append_assoc, List.singleton_append] at here
      refine readArrayLoop_element filler value isGap (scans_arrayEnd rest) rfl (.inr rfl) sound
        here enough elements fun r' v moved json current _ => ?_
      rw [if_pos rfl]
      refine ⟨moved, rfl, ?_, current⟩
      rw [Value.json, Value.jsonElements_append, json]
      rfl

theorem accepts_elements {js : List (Json Rat)} {before after more : List Char}
    (filler : Filler before) (value : AcceptsValue double j text) (isGap : Blank after)
    (elements : AcceptsElements double js more) :
    AcceptsElements double (j :: js) (before ++ (text ++ (after ++ ',' :: more))) := by
  intro r rest fuel read sound here enough
  cases fuel with
  | zero => omega
  | succ fuel =>
      simp only [List.append_assoc, List.cons_append] at here
      refine readArrayLoop_element filler value isGap (scans_arraySeparator _) rfl (.inl rfl) sound
        here enough read fun r' v moved json current less => ?_
      rw [if_neg (by decide)]
      refine (elements r' rest fuel _ moved.sound (congrArg trim current) (by omega)).mono ?_
      rintro result r'' ⟨moved', successful, array, behind⟩
      refine ⟨moved.trans moved', successful, array.trans ?_, behind⟩
      rw [Value.jsonElements_append, json, List.append_assoc]
      rfl

/-! ### Members -/

/-- One round of the loop of `readObject`: a member and the comma or bracket behind it. -/
theorem readObjectLoop_member {content quoted before gap middle after rest : List Char} {c : Char}
    {type : TokenType} (filler : Filler before) (isName : Quoted content quoted)
    (isGap : Blank gap) (filler' : Filler middle) (value : AcceptsValue double j text)
    (filler'' : Filler after) (scans : Scans type (c :: rest) rest)
    (noNumber : isNumberChar c = false)
    (known : type = .tokenObjectEnd ∨ type = .tokenArraySeparator) (sound : r.Sound)
    (here : trim r.current = trim (before ++
      ('"' :: (quoted ++ (gap ++ ':' :: (middle ++ (text ++ (after ++ c :: rest))))))))
    {fuel : Nat} (enough : 2 * r.current.length + 1 ≤ fuel + 1) (name : List Char)
    (members : List (String × Value)) {goal : Bool × Value → Reader → Prop}
    (goesOn : ∀ (r' : Reader) (v : Value), r.Advances r' → v.json = normal double j →
      r'.current = rest → r'.current.length < r.current.length →
      Runs (if type = .tokenObjectEnd then
          return (true, .objectValue (Value.updateMembers (cString content) (fun _ => v) members))
        else readObjectLoop double fuel content
          (Value.updateMembers (cString content) (fun _ => v) members)) r' goal) :
    Runs (readObjectLoop double (fuel + 1) name members) r goal := by
  have string := scans_string (gap ++ ':' :: (middle ++ (text ++ (after ++ c :: rest)))) isName
  have ends := ends_filler filler'' noNumber rest
  rw [readObjectLoop]
  refine (skipCommentTokens_reads filler string (by decide) sound here).bind ?_
  rintro _ r₁ ⟨moved₁, rfl, current₁, less₁⟩
  rw [if_neg (by rintro ⟨type, -⟩; cases type), if_neg fun other => other rfl]
  refine Exec.Meets.bind_of_run (decodeStringInto_quoted isName _ r₁) ?_
  have colon := scans_memberSeparator (middle ++ (text ++ (after ++ c :: rest)))
  refine (readToken_reads colon moved₁.sound ?_).bind ?_
  · rw [current₁, trim_blank isGap, colon.trimmed]
  rintro _ r₂ ⟨moved₂, rfl, current₂, less₂⟩
  rw [if_neg fun other => other rfl]
  refine (value r₂ middle _ fuel _ filler' ends moved₂.sound (congrArg trim current₂)
    (by omega)).bind ?_
  rintro ⟨ok, v⟩ r₃ ⟨moved₃, rfl, json, current₃⟩
  dsimp only
  have bound := moved₃.suffix.length_le
  refine (readSeparator_reads filler'' scans ?_ moved₃.sound (congrArg trim current₃)).bind ?_
  · rcases known with rfl | rfl <;> decide
  rintro comma r₄ ⟨-, separates, skips⟩
  rw [if_neg (by rcases known with rfl | rfl <;> rcases separates with same | same <;>
    rw [same] <;> decide)]
  refine skips.bind ?_
  rintro _ r₅ ⟨moved₅, rfl, current₅, less₅⟩
  exact goesOn r₅ v (((moved₁.trans moved₂).trans moved₃).trans moved₅) json current₅ (by omega)

theorem accepts_lastMember {content quoted before gap middle after : List Char}
    (filler : Filler before) (isName : Quoted content quoted) (isGap : Blank gap)
    (filler' : Filler middle) (value : AcceptsValue double j text) (filler'' : Filler after) :
    AcceptsMembers double [(content, j)]
      (before ++ ('"' :: (quoted ++ (gap ++ ':' :: (middle ++ (text ++ (after ++ ['}'])))))))  := by
  intro r rest fuel name members sound here enough
  cases fuel with
  | zero => omega
  | succ fuel =>
      simp only [List.append_assoc, List.cons_append, List.nil_append] at here
      refine readObjectLoop_member filler isName isGap filler' value filler''
        (scans_objectEnd rest) rfl (.inl rfl) sound here enough name members
        fun r' v moved json current _ => ?_
      rw [if_pos rfl]
      refine ⟨moved, rfl, ?_, current⟩
      rw [Value.json, Value.jsonMembers_update, toList_cString isName, json]
      rfl

theorem accepts_members {content quoted before gap middle after more : List Char}
    {ms : List (List Char × Json Rat)} (filler : Filler before) (isName : Quoted content quoted)
    (isGap : Blank gap) (filler' : Filler middle) (value : AcceptsValue double j text)
    (filler'' : Filler after) (members : AcceptsMembers double ms more) :
    AcceptsMembers double ((content, j) :: ms) (before ++
      ('"' :: (quoted ++ (gap ++ ':' :: (middle ++ (text ++ (after ++ ',' :: more))))))) := by
  intro r rest fuel name read sound here enough
  cases fuel with
  | zero => omega
  | succ fuel =>
      simp only [List.append_assoc, List.cons_append] at here
      refine readObjectLoop_member filler isName isGap filler' value filler''
        (scans_arraySeparator _) rfl (.inr rfl) sound here enough name read
        fun r' v moved json current less => ?_
      rw [if_neg (by decide)]
      refine (members r' rest fuel content _ moved.sound (congrArg trim current) (by omega)).mono ?_
      rintro result r'' ⟨moved', successful, object, behind⟩
      refine ⟨moved.trans moved', successful, object.trans ?_, behind⟩
      rw [Value.jsonMembers_update, toList_cString isName, json]
      rfl

/-! ## Layouts -/

theorem accepts_layout (rounding : Exact double) {form : Form} (layout : Layout Fits form text) :
    Accepts double form text := by
  induction layout with
  | null => exact accepts_word scans_null (by decide) (fun _ _ _ h => by rw [readTyped, h]) rfl
  | true => exact accepts_word scans_true (by decide) (fun _ _ _ h => by rw [readTyped, h]) rfl
  | false => exact accepts_word scans_false (by decide) (fun _ _ _ h => by rw [readTyped, h]) rfl
  | number n fits => exact accepts_number rounding n fits
  | string quoted => exact accepts_string quoted
  | emptyArray isGap => exact accepts_emptyArray isGap
  | array inside ih => exact accepts_array inside ih
  | emptyObject isGap => exact accepts_emptyObject isGap
  | object _ ih => exact accepts_object ih
  | lastElement filler _ isGap ih => exact accepts_lastElement filler ih isGap
  | element filler _ isGap _ ih more => exact accepts_elements filler ih isGap more
  | lastMember filler isName isGap filler' _ filler'' ih =>
      exact accepts_lastMember filler isName isGap filler' ih filler''
  | member filler isName isGap filler' _ filler'' _ ih more =>
      exact accepts_members filler isName isGap filler' ih filler'' more

end values
/-! ## Documents -/

section documents
variable {double : Rat → Rat} {j : Json Rat} {before text rest : List Char} (root : Value)
  (collectComments : Bool)

theorem readDocument_layout (rounding : Exact double) (layout : Layout Fits (.value j) text)
    (filler : Filler before) (ends : Ends rest) {r : Reader} (sound : r.Sound)
    (current : r.current = before ++ (text ++ rest)) :
    Runs (readDocument double (2 * r.current.length + 1) root) r fun result r' =>
      r.Advances r' ∧ result.1 = true ∧ result.2.json = normal double j := by
  have accepts : AcceptsValue double j text := accepts_layout rounding layout
  rw [readDocument]
  refine (accepts r before rest _ root filler ends sound (congrArg trim current)
    (Nat.le_refl _)).bind ?_
  rintro ⟨successful, v⟩ r₁ ⟨moved, rfl, json, -⟩
  refine (skipCommentTokens_runs moved.sound).bind fun _ r₂ comments => ?_
  refine (takeCommentsBefore_runs comments.1.sound).bind fun _ r₃ taken => ?_
  exact ⟨(moved.trans comments.1).trans taken.1, rfl, json⟩

/-- A JSON value is read back from any of its layouts, with its numbers rounded and the
members of its objects in order. What follows it in the document is not looked at. -/
theorem parse_layout (rounding : Exact double) (layout : Layout Fits (.value j) text)
    (filler : Filler before) (ends : Ends rest) :
    ∃ v, parse double (before ++ (text ++ rest)) root collectComments = .ok (true, v, []) ∧
      v.json = normal double j := by
  have start : Reader.Sound ⟨[], before ++ (text ++ rest), before ++ (text ++ rest), none, false,
    [], collectComments⟩ := ⟨List.suffix_rfl, nofun, .inl rfl⟩
  obtain ⟨⟨successful, v⟩, r', run, moved, rfl, json⟩ :=
    (readDocument_layout root rounding layout filler ends start rfl).run
  refine ⟨v, ?_, json⟩
  rw [parse]
  simp only [run]
  exact congrArg (fun errors => Except.ok (true, v, errors)) moved.errors

end documents

end Reader

namespace JsonValue
open JsonText Reader

section documents
variable {double : Rat → Rat} {j : Json Rat} {before text rest : List Char}

/-- The object read has its members in order, of each name the last. -/
theorem parse_object (rounding : Exact double) {ms : List (List Char × Json Rat)}
    (layout : Layout Fits (.value (.object ms)) text) (filler : Filler before) (ends : Ends rest)
    {buf : List UInt8} (chars : buf.map Char.ofUInt8 = before ++ (text ++ rest)) :
    ∃ v members, JsonValue.parse double buf = some v ∧ v.Shaped (Delivered double) ∧
      v.json = .object members ∧ InOrder members ∧
      ∀ name, find name members = (find name ms.reverse).map (normal double) := by
  obtain ⟨v, parsed, json⟩ := parse_layout .nullValue true rounding layout filler ends
  have shaped := parse_parsed double (before ++ (text ++ rest)) true .nullValue
  rw [parsed] at shaped
  rw [← chars] at parsed
  refine ⟨v, _, by rw [JsonValue.parse, parsed], shaped.1, json, ?_, fun name => ?_⟩
  · cases shaped.1 with
    | objectValue members sorted =>
        have same : Value.jsonMembers members = collect [] (normalMembers double ms) :=
          Json.object.inj json
        exact same ▸ Value.inOrder_jsonMembers sorted
    | _ => cases json
  · rw [find_collect, find_normalMembers, find, Option.or_none]

/-- A JSON value is read from any of its layouts: whatever blanks and comments stand before
it and inside, however its numbers and strings are written, and whatever follows it. -/
theorem parse_json (rounding : Exact double) (layout : Layout Fits (.value j) text)
    (filler : Filler before) (ends : Ends rest) {buf : List UInt8}
    (chars : buf.map Char.ofUInt8 = before ++ (text ++ rest)) :
    ∃ v, JsonValue.parse double buf = some v ∧ v.json = normal double j := by
  obtain ⟨v, parsed, json⟩ := parse_layout .nullValue true rounding layout filler ends
  refine ⟨v, ?_, json⟩
  rw [JsonValue.parse, chars, parsed]

theorem parse_json_comment : ∃ v, JsonValue.parse id
      [47, 47, 13, 91, 116, 114, 117, 101, 32, 93, 33] = some v ∧
      v.json = normal id (.array [.boolean true]) := by
  have blank : Blank [' '] := fun c member => by rw [List.mem_singleton.mp member]; rfl
  have ends : Ends ['!'] := fun c head => by cases head; rfl
  exact parse_json (fun _ _ => rfl) (.array (.lastElement (.blank [] nofun) .true blank))
    (.line [] [] '\r' nofun nofun (.inl rfl) (.blank [] nofun)) ends rfl

/-- The order of members cannot be seen, nor can members that a later one of their name
replaces. -/
theorem parse_same_members (rounding : Exact double) {ms ns : List (List Char × Json Rat)}
    {other : List Char} (layout : Layout Fits (.value (.object ms)) text)
    (layout' : Layout Fits (.value (.object ns)) other)
    (same : ∀ name, find name ms.reverse = find name ns.reverse) {buf buf' : List UInt8}
    (chars : buf.map Char.ofUInt8 = text) (chars' : buf'.map Char.ofUInt8 = other) :
    ∃ v v', JsonValue.parse double buf = some v ∧ JsonValue.parse double buf' = some v' ∧
      v.json = v'.json := by
  have nothing : Filler [] := .blank [] nofun
  have ends : Ends [] := nofun
  obtain ⟨v, members, parsed, _, json, sorted, finds⟩ := parse_object rounding layout nothing ends
    (chars.trans (List.append_nil text).symm)
  obtain ⟨v', members', parsed', _, json', sorted', finds'⟩ := parse_object rounding layout'
    nothing ends (chars'.trans (List.append_nil other).symm)
  have equal : members = members' :=
    inOrder_ext sorted sorted' fun name => by rw [finds, finds', same]
  exact ⟨v, v', parsed, parsed', by rw [json, json', equal]⟩

theorem parse_same_members_replaced : ∃ v v',
    JsonValue.parse id [123, 34, 97, 34, 58, 116, 114, 117, 101, 125] = some v ∧
      JsonValue.parse id [123, 34, 97, 34, 58, 110, 117, 108, 108, 44, 34, 97, 34, 58, 116, 114,
        117, 101, 125] = some v' ∧ v.json = v'.json := by
  have none : Filler [] := .blank [] nofun
  have name : Quoted ['a'] ['a', '"'] := .plain 'a' (by decide) (by decide) (by decide) .close
  have gap : Blank [] := nofun
  have last : Layout Fits _ _ := .lastMember none name gap none .true none
  refine parse_same_members (fun _ _ => rfl) (.object last)
    (.object (.member none name gap none .null none last)) (fun name => ?_) rfl rfl
  by_cases same : ['a'] = name <;> simp [find, same]

end documents

end JsonValue
end AsyncPing
