import AsyncPing.Core.JsonReader
import AsyncPing.Library.JsonText
import Mathlib.Data.List.TakeWhile
import Mathlib.Tactic.FieldSimp
import Mathlib.Tactic.Ring

/-!
The decimal numerals the reader decodes: the loop over the digits of an integer, which
gives up one digit before the value could wrap around, and what `sscanf` makes of the
numerals of a layout.
-/
namespace AsyncPing
namespace Reader
open JsonText

/-! ## Scanned numerals -/

theorem sscanf_nearest {double : Rat → Rat} {buffer : List Char} {real : Double}
    (scanned : sscanf double buffer = some real) :
    ∃ negative size, 0 ≤ size ∧ real = .nearest double negative size := by
  unfold sscanf at scanned
  obtain ⟨-, same⟩ := Option.ite_none_left_eq_some.mp scanned
  exact ⟨_, _, mul_nonneg (Nat.cast_nonneg _) (zpow_nonneg (by norm_num) _),
    (Option.some.inj same).symm⟩

/-! ## The loop of decodeNumber -/

theorem isDigit_iff (c : Char) : c.isDigit = true ↔ ¬(c < '0' ∨ c > '9') := by
  rw [Char.isDigit, Bool.and_eq_true, decide_eq_true_iff, decide_eq_true_iff, not_or]
  constructor
  · intro both
    exact ⟨UInt32.not_lt.mpr both.1, UInt32.not_lt.mpr both.2⟩
  · intro both
    exact ⟨UInt32.not_lt.mp both.1, UInt32.not_lt.mp both.2⟩

theorem digit_le {c : Char} (digit : c.isDigit = true) : c.toNat - '0'.toNat ≤ 9 := by
  rw [Char.isDigit, Bool.and_eq_true, decide_eq_true_iff, decide_eq_true_iff] at digit
  have upper : c.toNat ≤ 57 := UInt32.le_iff_toNat_le.mp digit.2
  have zero : '0'.toNat = 48 := rfl
  omega

/-- One round of the loop before it gives up stays within 32 bits. -/
theorem toNat_round {value threshold : UInt32} (below : value < threshold)
    (bound : threshold.toNat ≤ 429496729) {d : Nat} (digit : d ≤ 9) :
    (value * 10 + UInt32.ofNat d).toNat = 10 * value.toNat + d := by
  have less : value.toNat < threshold.toNat := UInt32.lt_iff_toNat_lt.mp below
  rw [UInt32.toNat_add, UInt32.toNat_mul, UInt32.toNat_ofNat']
  have ten : (10 : UInt32).toNat = 10 := rfl
  rw [ten]
  omega

theorem le_ofDigitChars (text : List Char) (value : Nat) :
    value ≤ Nat.ofDigitChars 10 text value := by
  rw [Nat.ofDigitChars_eq_ofDigitChars_zero]
  calc value = 1 * value := (Nat.one_mul value).symm
    _ ≤ 10 ^ text.length * value := Nat.mul_le_mul_right _ (Nat.pow_pos (by decide))
    _ ≤ _ := Nat.le_add_right _ _

theorem decodeDigits_eq {threshold : UInt32} (bound : threshold.toNat ≤ 429496729)
    {text : List Char} (digits : ∀ c ∈ text, c.isDigit = true) (nonempty : text ≠ [])
    (value : UInt32) :
    decodeDigits threshold value text =
      if threshold.toNat ≤ Nat.ofDigitChars 10 text value.toNat / 10 then .tooLarge
      else .value (UInt32.ofNat (Nat.ofDigitChars 10 text value.toNat)) := by
  induction text generalizing value with
  | nil => exact (nonempty rfl).elim
  | cons c rest ih =>
      have digit := digits c List.mem_cons_self
      have small := digit_le digit
      rw [decodeDigits, if_neg ((isDigit_iff c).mp digit), Nat.ofDigitChars_cons]
      by_cases large : value ≥ threshold
      · have least := le_ofDigitChars rest (10 * value.toNat + (c.toNat - '0'.toNat))
        have atLeast : threshold.toNat ≤ value.toNat := UInt32.le_iff_toNat_le.mp large
        rw [if_pos large, if_pos (by omega)]
      · have below : value < threshold := UInt32.not_le.mp large
        have next := toNat_round below bound small
        have less : value.toNat < threshold.toNat := UInt32.lt_iff_toNat_lt.mp below
        rw [if_neg large]
        cases rest with
        | nil =>
            rw [decodeDigits, Nat.ofDigitChars_nil, if_neg (by omega), ← next, UInt32.ofNat_toNat]
        | cons d rest =>
            rw [ih (fun c member => digits c (List.mem_cons_of_mem _ member))
              (List.cons_ne_nil d rest), next]

theorem decodeDigits_ofDigits {threshold : UInt32} (bound : threshold.toNat ≤ 429496729)
    {text : List Char} (digits : ∀ c ∈ text, c.isDigit = true) (nonempty : text ≠ []) :
    decodeDigits threshold 0 text =
      if 10 * threshold.toNat ≤ ofDigits text then .tooLarge
      else .value (UInt32.ofNat (ofDigits text)) := by
  have same : threshold.toNat ≤ ofDigits text / 10 ↔ 10 * threshold.toNat ≤ ofDigits text := by
    omega
  rw [← if_congr same rfl rfl]
  exact decodeDigits_eq bound digits nonempty 0

/-- Every char before one that is no digit has gone round the loop. -/
theorem decodeDigits_digits {threshold value result : UInt32} {text : List Char}
    (decoded : decodeDigits threshold value text = .value result) :
    ∀ c ∈ text, c.isDigit = true := by
  induction text generalizing value with
  | nil => nofun
  | cons c rest ih =>
      rw [decodeDigits] at decoded
      split at decoded
      · cases decoded
      · rename_i digit
        split at decoded
        · cases decoded
        · intro d member
          cases List.mem_cons.mp member with
          | inl head => exact head ▸ (isDigit_iff c).mpr digit
          | inr later => exact ih decoded d later

theorem decodeDigits_le {threshold result : UInt32} (bound : threshold.toNat ≤ 429496729)
    (positive : 0 < threshold.toNat) {text : List Char}
    (decoded : decodeDigits threshold 0 text = .value result) :
    result.toNat ≤ 10 * (threshold.toNat - 1) + 9 := by
  have digits := decodeDigits_digits decoded
  cases text with
  | nil =>
      cases decoded
      exact Nat.zero_le _
  | cons c rest =>
      rw [decodeDigits_eq bound digits (List.cons_ne_nil c rest)] at decoded
      split at decoded
      · cases decoded
      · rename_i small
        cases decoded
        rw [UInt32.toNat_ofNat']
        omega

/-! ## Signed results -/

theorem toInt_toInt32 {value : UInt32} (small : value.toNat < 2147483648) :
    value.toInt32.toInt = value.toNat := by
  rw [← Int32.toInt_toBitVec, UInt32.toBitVec_toInt32]
  exact BitVec.toInt_eq_toNat_of_lt (by rw [UInt32.toNat_toBitVec]; omega)

theorem toInt_neg_toInt32 {value : UInt32} (small : value.toNat < 2147483648) :
    (-value.toInt32).toInt = -value.toNat := by
  rw [Int32.toInt_neg, toInt_toInt32 small, Int.bmod_eq_of_le (by omega) (by omega)]

/-! ## Numerals of a layout -/

/-- The number without its sign that stands at the start of the text. -/
def magnitude (text : List Char) : Option Rat :=
  let whole := text.takeWhile Char.isDigit
  let (fraction, rest) := match text.dropWhile Char.isDigit with
    | '.' :: more => (more.takeWhile Char.isDigit, more.dropWhile Char.isDigit)
    | rest => ([], rest)
  if whole = [] ∧ fraction = [] then none
  else some (Nat.ofDigitChars 10 (whole ++ fraction) 0 *
    (10 : Rat) ^ (scanExponent rest - fraction.length))

theorem sscanf_negative (double : Rat → Rat) (text : List Char) :
    sscanf double ('-' :: text) = (magnitude text).map (.nearest double true) := by
  unfold magnitude
  dsimp only
  rw [apply_ite (Option.map _)]
  rfl

/-- A sign is no digit. -/
theorem digit_sign {c : Char} {digits rest : List Char}
    (digital : ∀ d ∈ digits, d.isDigit = true) (same : digits = c :: rest)
    (sign : c.isDigit = false) : False := by
  have digit := digital c (same ▸ List.mem_cons_self)
  rw [sign] at digit
  cases digit

theorem sscanf_positive (double : Rat → Rat) {c : Char} (digit : c.isDigit = true)
    (text : List Char) :
    sscanf double (c :: text) = (magnitude (c :: text)).map (.nearest double false) := by
  have first : ∀ d ∈ [c], d.isDigit = true := fun d member => List.mem_singleton.mp member ▸ digit
  rw [sscanf]
  · unfold magnitude
    dsimp only
    rw [apply_ite (Option.map _)]
    rfl
  · exact fun rest same => digit_sign first (congrArg (· :: []) (List.cons.inj same).1) rfl
  · exact fun rest same => digit_sign first (congrArg (· :: []) (List.cons.inj same).1) rfl

theorem takeWhile_stop {p : Char → Bool} {rest : List Char}
    (stop : ∀ c ∈ rest.head?, p c = false) :
    rest.takeWhile p = [] ∧ rest.dropWhile p = rest := by
  cases rest with
  | nil => exact ⟨rfl, rfl⟩
  | cons c rest =>
      have no := stop c rfl
      exact ⟨List.takeWhile_cons_of_neg (by rw [no]; exact Bool.false_ne_true),
        List.dropWhile_cons_of_neg (by rw [no]; exact Bool.false_ne_true)⟩

theorem scanExponent_text (e : Exponent) : scanExponent e.text = e.value := by
  obtain ⟨letter, sign, digits, isLetter, isSign, digital⟩ := e
  have all : digits.takeWhile Char.isDigit = digits := List.takeWhile_eq_self_iff.mpr digital
  have mark : ¬(letter ≠ 'e' ∧ letter ≠ 'E') := by tauto
  cases sign with
  | none =>
      change scanExponent (letter :: digits) = ofDigits digits
      rw [scanExponent, if_neg mark, if_neg Bool.false_ne_true, all]
      · exact fun rest same => digit_sign digital same rfl
      · exact fun rest same => digit_sign digital same rfl
  | some c =>
      obtain rfl | rfl := isSign c rfl
      · change scanExponent (letter :: '+' :: digits) = ofDigits digits
        rw [scanExponent, if_neg mark, if_neg Bool.false_ne_true, all]
      · change scanExponent (letter :: '-' :: digits) = -(ofDigits digits : Int)
        rw [scanExponent, if_neg mark, if_pos rfl, all]

theorem exponentText_mark (n : Numeral) : ∀ c ∈ n.exponentText.head?, c = 'e' ∨ c = 'E' := by
  rw [Numeral.exponentText]
  split
  · nofun
  · rename_i e _
    intro c head
    cases head
    exact e.isLetter

theorem exponentText_head (n : Numeral) : ∀ c ∈ n.exponentText.head?, c.isDigit = false := by
  intro c head
  obtain rfl | rfl := exponentText_mark n c head <;> rfl

theorem scanExponent_numeral (n : Numeral) : scanExponent n.exponentText = n.scale := by
  rw [Numeral.exponentText, Numeral.scale]
  cases n.exponent with
  | none => rfl
  | some e => exact scanExponent_text e

/-- The digits as one number, with the point moved behind the last of them. -/
theorem size_digits (n : Numeral) : n.size =
    (ofDigits (n.whole ++ n.decimals) : Rat) * 10 ^ (n.scale - n.decimals.length) := by
  have ten : (10 : Rat) ≠ 0 := by norm_num
  have joined : ofDigits (n.whole ++ n.decimals) =
      10 ^ n.decimals.length * ofDigits n.whole + ofDigits n.decimals := by
    rw [ofDigits, Nat.ofDigitChars_append, Nat.ofDigitChars_eq_ofDigitChars_zero]
  rw [Numeral.size, joined, zpow_sub₀ ten, zpow_natCast]
  push_cast
  field_simp

theorem span_digits {whole tail : List Char} (digital : ∀ c ∈ whole, c.isDigit = true)
    (stop : ∀ c ∈ tail.head?, c.isDigit = false) :
    (whole ++ tail).takeWhile Char.isDigit = whole ∧
      (whole ++ tail).dropWhile Char.isDigit = tail := by
  obtain ⟨none, all⟩ := takeWhile_stop stop
  rw [List.takeWhile_append_of_pos digital, List.dropWhile_append_of_pos digital, none, all,
    List.append_nil]
  exact ⟨rfl, rfl⟩

theorem magnitude_text (n : Numeral) :
    magnitude (n.whole ++ (n.fractionText ++ n.exponentText)) = some n.size := by
  have noNumeral : ∀ fraction : List Char, ¬(n.whole = [] ∧ fraction = []) :=
    fun _ none => n.nonempty none.1
  rw [size_digits, ← scanExponent_numeral, Numeral.decimals, Numeral.fractionText]
  unfold magnitude
  cases fraction : n.fraction with
  | none =>
      obtain ⟨taken, left⟩ := span_digits n.digital (exponentText_head n)
      dsimp only
      rw [List.nil_append, taken, left]
      split
      · rename_i more point
        have head := exponentText_mark n '.' (by rw [point]; rfl)
        exact absurd head (by decide)
      · dsimp only
        rw [if_neg (noNumeral [])]
        rfl
  | some digits =>
      have digital := n.fractional digits fraction
      have point : ∀ c ∈ ('.' :: digits ++ n.exponentText).head?, c.isDigit = false :=
        fun c head => by cases head; rfl
      obtain ⟨taken, left⟩ := span_digits n.digital point
      obtain ⟨taken', left'⟩ := span_digits digital (exponentText_head n)
      dsimp only
      rw [taken, left, List.cons_append]
      simp only [taken', left', if_neg (noNumeral digits)]
      rfl

/-- A numeral is read as the number it denotes. -/
theorem sscanf_text (double : Rat → Rat) (n : Numeral) :
    sscanf double n.text = some (.nearest double n.negative n.size) := by
  rw [Numeral.text, Numeral.sign]
  cases n.negative with
  | true =>
      rw [if_pos rfl, List.singleton_append, sscanf_negative, magnitude_text]
      rfl
  | false =>
      rw [if_neg Bool.false_ne_true, List.nil_append]
      obtain ⟨c, digits, whole⟩ := List.exists_cons_of_ne_nil n.nonempty
      have digit := n.digital c (whole ▸ List.mem_cons_self)
      have read := magnitude_text n
      rw [whole, List.cons_append] at read ⊢
      rw [sscanf_positive double digit, read]
      rfl

/-! ### Integers among the numerals -/

theorem numberChar_digit {c : Char} (digit : c.isDigit = true) :
    (c = '.' ∨ c = 'e' ∨ c = 'E' ∨ c = '+') → False := by
  rintro (rfl | rfl | rfl | rfl) <;> exact absurd digit (by decide)

/-- Digits behind at most one sign. -/
theorem isDouble_integer {n : Numeral} (fraction : n.fraction = none)
    (exponent : n.exponent = none) : n.text = n.sign ++ n.whole ∧ isDouble n.text = false := by
  have text : n.text = n.sign ++ n.whole := by
    rw [Numeral.text, Numeral.fractionText, Numeral.exponentText, fraction, exponent,
      List.append_nil, List.append_nil]
  refine ⟨text, ?_⟩
  have noMark : ∀ c ∈ n.whole, ¬(c = '.' ∨ c = 'e' ∨ c = 'E' ∨ c = '+') :=
    fun c member => numberChar_digit (n.digital c member)
  have noSign : ∀ c ∈ n.whole, c ≠ '-' := by
    rintro c member rfl
    exact absurd (n.digital '-' member) (by decide)
  rw [text, isDouble, Bool.or_eq_false_iff, List.any_eq_false, List.any_eq_false, Numeral.sign]
  cases n.negative with
  | true =>
      rw [if_pos rfl]
      refine ⟨fun c member => ?_, fun c member => ?_⟩
      · cases List.mem_cons.mp member with
        | inl head => rw [head]; decide
        | inr digit => simpa using noMark c digit
      · simpa using noSign c member
  | false =>
      rw [if_neg Bool.false_ne_true, List.nil_append]
      refine ⟨fun c member => ?_, fun c member => ?_⟩
      · simpa using noMark c member
      · simpa using noSign c (List.mem_of_mem_drop member)

theorem isDouble_of_mark {n : Numeral} {c : Char} (mark : c = '.' ∨ c = 'e' ∨ c = 'E' ∨ c = '+')
    (member : c ∈ n.text) : isDouble n.text = true := by
  rw [isDouble, Bool.or_eq_true]
  exact .inl (List.any_eq_true.mpr ⟨c, member, by simpa using mark⟩)

theorem isDouble_other {n : Numeral} (other : ¬(n.fraction = none ∧ n.exponent = none)) :
    isDouble n.text = true := by
  cases fraction : n.fraction with
  | some digits =>
      refine isDouble_of_mark (.inl rfl) ?_
      rw [Numeral.text, Numeral.fractionText, fraction]
      simp
  | none =>
      cases exponent : n.exponent with
      | none => exact absurd ⟨fraction, exponent⟩ other
      | some e =>
          refine isDouble_of_mark (c := e.letter) ?_ ?_
          · rcases e.isLetter with letter | letter <;> simp [letter]
          · rw [Numeral.text, Numeral.exponentText, exponent]
            simp [Exponent.text]

theorem number_digit {c : Char} (digit : c.isDigit = true) : isNumberChar c = true := by
  rw [isNumberChar, digit]
  rfl

theorem number_fraction (n : Numeral) : ∀ c ∈ n.fractionText, isNumberChar c = true := by
  rw [Numeral.fractionText]
  split
  · nofun
  · rename_i digits same
    intro c member
    cases List.mem_cons.mp member with
    | inl point => rw [point]; rfl
    | inr digit => exact number_digit (n.fractional digits same c digit)

theorem number_exponent (n : Numeral) : ∀ c ∈ n.exponentText, isNumberChar c = true := by
  rw [Numeral.exponentText]
  split
  · nofun
  · rename_i e _
    intro c member
    rcases List.mem_append.mp member with front | digit
    · rcases List.mem_cons.mp front with rfl | sign
      · rcases e.isLetter with letter | letter <;> rw [letter] <;> rfl
      · rcases e.isSign c (Option.mem_toList.mp sign) with rfl | rfl <;> rfl
    · exact number_digit (e.digital c digit)

theorem number_sign (n : Numeral) : ∀ c ∈ n.sign, c = '-' := by
  rw [Numeral.sign]
  split
  · exact fun c member => List.mem_singleton.mp member
  · nofun

theorem number_chars (n : Numeral) : ∀ c ∈ n.text, isNumberChar c = true := by
  intro c member
  rcases List.mem_append.mp member with sign | unsigned
  · rw [number_sign n c sign]
    rfl
  rcases List.mem_append.mp unsigned with digit | behind
  · exact number_digit (n.digital c digit)
  rcases List.mem_append.mp behind with fraction | exponent
  · exact number_fraction n c fraction
  · exact number_exponent n c exponent

theorem text_cons (n : Numeral) :
    ∃ c chars, n.text = c :: chars ∧ (c.isDigit = true ∨ c = '-') := by
  obtain ⟨c, digits, whole⟩ := List.exists_cons_of_ne_nil n.nonempty
  have digit := n.digital c (whole ▸ List.mem_cons_self)
  rw [Numeral.text, Numeral.sign, whole]
  cases n.negative with
  | true => exact ⟨'-', _, rfl, .inr rfl⟩
  | false => exact ⟨c, _, rfl, .inl digit⟩

end Reader
end AsyncPing
