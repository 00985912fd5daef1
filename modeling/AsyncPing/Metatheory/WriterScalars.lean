import AsyncPing.Core.JsonWriter
import AsyncPing.Metatheory.LayoutReader

/-!
What the writers print for numbers and strings are layouts of them. An integer is printed
as it is, a double rounded to ten decimals with the zeros at the end left out.
-/
namespace AsyncPing
open JsonText Reader

/-! ## Integers -/

theorem digitChar_eq (d : Nat) (digit : d < 10) : Char.ofNat (d + '0'.toNat) = Nat.digitChar d := by
  have all : ∀ d < 10, Char.ofNat (d + '0'.toNat) = Nat.digitChar d := by decide
  exact all d digit

/-- The digits are put in front of what is there. -/
theorem uintToString_eq (digits : Nat) (value : UInt32) (current : List Char)
    (bound : value.toNat < 10 ^ (digits + 1)) :
    uintToString (digits + 1) value current = Nat.toDigits 10 value.toNat ++ current := by
  have modulo : (value % 10).toNat = value.toNat % 10 := UInt32.toNat_mod value 10
  have quotient : (value / 10).toNat = value.toNat / 10 := UInt32.toNat_div value 10
  have last := digitChar_eq (value.toNat % 10) (Nat.mod_lt _ (by decide))
  induction digits generalizing value current with
  | zero =>
      have small : value.toNat / 10 = 0 := by omega
      have zero : value / 10 = 0 := UInt32.toNat.inj (quotient.trans small)
      rw [uintToString, zero, if_neg (by decide), modulo, last, Nat.toDigits_of_lt_base (by omega),
        Nat.mod_eq_of_lt (by omega)]
      rfl
  | succ digits ih =>
      rw [uintToString, modulo, last, Nat.toDigits_eq_if (by decide)]
      split
      · rename_i more
        have base : ¬value.toNat < 10 := fun small => more (UInt32.toNat.inj (by
          rw [quotient, Nat.div_eq_of_lt small]
          rfl))
        rw [if_neg base, ih _ _ (by rw [quotient]; omega) (UInt32.toNat_mod _ 10)
          (UInt32.toNat_div _ 10) (digitChar_eq _ (Nat.mod_lt _ (by decide))), quotient]
        simp
      · rename_i done
        have zero : value.toNat / 10 = 0 := by
          rw [← quotient, Decidable.not_not.mp done]
          rfl
        rw [if_pos (by omega), Nat.mod_eq_of_lt (by omega)]
        rfl

theorem digits_digital (n : Nat) : ∀ c ∈ Nat.toDigits 10 n, c.isDigit = true :=
  fun _ member => Nat.isDigit_of_mem_toDigits (by decide) (by decide) member

/-- The numeral with these digits behind the point, which is left out when there are none. -/
def decimal (negative : Bool) (n : Nat) (tail : List Char)
    (digital : ∀ c ∈ tail, c.isDigit = true) : Numeral where
  negative
  whole := Nat.toDigits 10 n
  fraction := if tail = [] then none else some tail
  exponent := none
  digital := digits_digital n
  nonempty := Nat.toDigits_ne_nil
  fractional := by
    split
    · nofun
    · intro digits same
      exact Option.some.inj same ▸ digital

section decimals
variable (negative : Bool) (n : Nat) {tail : List Char} (digital : ∀ c ∈ tail, c.isDigit = true)

theorem decimal_text : (decimal negative n tail digital).text =
    (if negative then ['-'] else []) ++ (Nat.toDigits 10 n ++
      (if tail = [] then [] else '.' :: tail)) := by
  have fraction : (decimal negative n tail digital).fraction =
      if tail = [] then none else some tail := rfl
  have tailText : (decimal negative n tail digital).fractionText =
      if tail = [] then [] else '.' :: tail := by
    rw [Numeral.fractionText, fraction]
    by_cases empty : tail = []
    · rw [if_pos empty, if_pos empty]
    · rw [if_neg empty, if_neg empty]
  rw [Numeral.text, tailText, Numeral.exponentText, Numeral.sign, decimal, List.append_nil]

theorem decimal_value : (decimal negative n tail digital).value =
    if negative then -((n : Rat) + ofDigits tail / 10 ^ tail.length)
    else (n : Rat) + ofDigits tail / 10 ^ tail.length := by
  have size : (decimal negative n tail digital).size =
      (n : Rat) + ofDigits tail / 10 ^ tail.length := by
    have decimals : (decimal negative n tail digital).decimals = tail := by
      have fraction : (decimal negative n tail digital).fraction =
          if tail = [] then none else some tail := rfl
      rw [Numeral.decimals, fraction]
      by_cases empty : tail = []
      · rw [if_pos empty, empty]
        rfl
      · rw [if_neg empty]
        rfl
    have whole : ofDigits (decimal negative n tail digital).whole = n :=
      Nat.ofDigitChars_ten_toDigits
    rw [Numeral.size, decimals, whole]
    exact mul_one _
  rw [Numeral.value, size]
  rfl

end decimals

theorem integer_fits (negative : Bool) {n : Nat} (bound : n < 4294967296) :
    Fits (decimal negative n [] nofun) := by
  have digits : (Nat.toDigits 10 n).length ≤ 10 :=
    (Nat.length_toDigits_le_iff (by decide) (by decide)).mpr (by omega)
  have sign : (if negative then ['-'] else []).length ≤ 1 := by cases negative <;> decide
  rw [Fits, decimal_text, List.length_append, List.length_append, bufferSize]
  have none : (if ([] : List Char) = [] then [] else ['.']).length = 0 := rfl
  simp only [if_pos, List.length_nil]
  omega

/-- An int and an unsigned int are printed as they are. -/
theorem uint_layout (value : UInt32) :
    Layout Fits (.value (.number value.toNat)) (UInt32.valueToString value) := by
  have bound := value.toNat_lt
  have layout := Layout.number (decimal false value.toNat [] nofun) (integer_fits false bound)
  rw [decimal_text, decimal_value] at layout
  rw [UInt32.valueToString, uintToString_eq 9 value [] (by omega)]
  simpa using layout

theorem toInt_cond (value : Int32) : value.toInt =
    if 2 * value.toUInt32.toNat < 4294967296 then (value.toUInt32.toNat : Int)
    else value.toUInt32.toNat - 4294967296 :=
  BitVec.toInt_eq_toNat_cond value.toBitVec

theorem toNat_neg (value : Int32) :
    (-value).toUInt32.toNat = (4294967296 - value.toUInt32.toNat) % 4294967296 :=
  BitVec.toNat_neg value.toBitVec

theorem int_layout (value : Int32) :
    Layout Fits (.value (.number value.toInt)) (Int32.valueToString value) := by
  have bound := value.toUInt32.toNat_lt
  have held := toInt_cond value
  rw [Int32.valueToString]
  split
  · rename_i negative
    have below : value.toInt < 0 := Int32.lt_iff_toInt_lt.mp negative
    have opposite := toNat_neg value
    have whole : value.toInt = -((-value).toUInt32.toNat : Int) := by
      split at held <;> omega
    have least : (-value).toUInt32.toNat < 4294967296 := by omega
    have layout := Layout.number (decimal true (-value).toUInt32.toNat [] nofun)
      (integer_fits true least)
    rw [decimal_text, decimal_value] at layout
    rw [uintToString_eq 9 _ [] (by omega), whole]
    generalize (-value).toUInt32.toNat = size at layout ⊢
    simpa using layout
  · rename_i positive
    have above : 0 ≤ value.toInt := Int32.le_iff_toInt_le.mp (Int32.not_lt.mp positive)
    have whole : value.toInt = (value.toUInt32.toNat : Int) := by
      split at held <;> omega
    have layout := Layout.number (decimal false value.toUInt32.toNat [] nofun)
      (integer_fits false bound)
    rw [decimal_text, decimal_value] at layout
    rw [uintToString_eq 9 _ [] (by omega), whole]
    simpa using layout

/-! ## Doubles -/

/-- The value in units of the last decimal. -/
def scaled (value : Rat) : Nat := roundDiv (value.num.natAbs * 10 ^ 10) value.den

/-- The number whose ten decimals are printed. -/
def printed (value : Rat) : Rat :=
  (if value < 0 then -1 else 1) * ((scaled value : Rat) / 10 ^ 10)

/-- The number that is printed for a double; an infinity has none. -/
def Double.printed : Double → Rat
  | finite value => AsyncPing.printed value
  | negativeZero | infinity _ => 0

/-- What is left of the decimals without the zeros at their end. -/
def strip (decimals : List Char) : List Char := (decimals.reverse.dropWhile (· = '0')).reverse

theorem strip_zeros (decimals : List Char) :
    ∃ zeros, decimals = strip decimals ++ List.replicate zeros '0' := by
  have zeros : decimals.reverse.takeWhile (· = '0') =
      List.replicate (decimals.reverse.takeWhile (· = '0')).length '0' :=
    List.eq_replicate_of_mem fun c member => by simpa using List.mem_takeWhile_imp member
  refine ⟨(decimals.reverse.takeWhile (· = '0')).length, ?_⟩
  calc decimals = decimals.reverse.reverse := (List.reverse_reverse decimals).symm
    _ = (decimals.reverse.takeWhile (· = '0') ++ decimals.reverse.dropWhile (· = '0')).reverse := by
        rw [List.takeWhile_append_dropWhile]
    _ = strip decimals ++ (decimals.reverse.takeWhile (· = '0')).reverse := List.reverse_append
    _ = _ := by
        rw [zeros, List.reverse_replicate, List.length_replicate]

theorem truncate_eq {front decimals : List Char} (digital : ∀ c ∈ decimals, c.isDigit = true) :
    truncate (front ++ '.' :: decimals) =
      front ++ (if strip decimals = [] then [] else '.' :: strip decimals) := by
  have point : (front ++ '.' :: decimals).reverse = decimals.reverse ++ '.' :: front.reverse := by
    rw [List.reverse_append, List.reverse_cons, List.append_assoc, List.singleton_append]
  have stripped : (front ++ '.' :: decimals).reverse.dropWhile (· = '0') =
      decimals.reverse.dropWhile (· = '0') ++ '.' :: front.reverse := by
    rw [point, List.dropWhile_append]
    split
    · rename_i empty
      rw [List.isEmpty_iff.mp empty]
      rfl
    · rfl
  have digits : ∀ c ∈ decimals.reverse.dropWhile (· = '0'), c.isDigit = true :=
    fun c member => digital c (List.mem_reverse.mp ((List.dropWhile_suffix _).mem member))
  unfold truncate strip
  dsimp only
  rw [stripped, List.dropWhile_append_of_pos digits, List.dropWhile_cons_of_neg (by decide)]
  cases left : decimals.reverse.dropWhile (· = '0') with
  | nil => exact (List.reverse_reverse front).trans (List.append_nil front).symm
  | cons d rest =>
      rw [left] at digits
      have digit : d ≠ '.' := by
        rintro rfl
        exact absurd (digits '.' List.mem_cons_self) (by decide)
      have some : (d :: rest).reverse ≠ [] := by simp
      have head : ¬deref (d :: rest ++ '.' :: front.reverse) = '.' := digit
      rw [if_neg head, if_neg some, List.reverse_append, List.reverse_cons, List.reverse_reverse,
        List.append_assoc, List.singleton_append]
      rfl

/-! ### Ten decimals -/

/-- The decimals as they are printed, ten of them. -/
def decimals (scaled : Nat) : List Char :=
  List.replicate (10 - (Nat.toDigits 10 (scaled % 10 ^ 10)).length) '0' ++
    Nat.toDigits 10 (scaled % 10 ^ 10)

theorem decimals_digital (scaled : Nat) : ∀ c ∈ decimals scaled, c.isDigit = true := by
  intro c member
  cases List.mem_append.mp member with
  | inl zero => rw [List.eq_of_mem_replicate zero]; rfl
  | inr digit => exact digits_digital _ c digit

theorem decimals_length (scaled : Nat) : (decimals scaled).length = 10 := by
  have least : (Nat.toDigits 10 (scaled % 10 ^ 10)).length ≤ 10 :=
    (Nat.length_toDigits_le_iff (by decide) (by decide)).mpr (Nat.mod_lt _ (by decide))
  rw [decimals, List.length_append, List.length_replicate]
  omega

theorem decimals_ofDigits (scaled : Nat) : ofDigits (decimals scaled) = scaled % 10 ^ 10 := by
  rw [decimals, ofDigits, Nat.ofDigitChars_append, Nat.ofDigitChars_replicate_zero, Nat.mul_zero,
    Nat.ofDigitChars_ten_toDigits]

/-- The zeros at the end do not count. -/
theorem strip_value (digits : List Char) :
    (ofDigits (strip digits) : Rat) / 10 ^ (strip digits).length =
      ofDigits digits / 10 ^ digits.length := by
  obtain ⟨zeros, same⟩ := strip_zeros digits
  have joined : ofDigits digits = 10 ^ zeros * ofDigits (strip digits) := by
    conv_lhs => rw [same]
    rw [ofDigits, Nat.ofDigitChars_append, Nat.ofDigitChars_replicate_zero]
  have length : digits.length = (strip digits).length + zeros := by
    conv_lhs => rw [same]
    rw [List.length_append, List.length_replicate]
  rw [joined, length, pow_add]
  push_cast
  field_simp

theorem strip_digital {digits : List Char} (digital : ∀ c ∈ digits, c.isDigit = true) :
    ∀ c ∈ strip digits, c.isDigit = true := by
  obtain ⟨zeros, same⟩ := strip_zeros digits
  intro c member
  exact digital c (same ▸ List.mem_append_left _ member)

theorem fixedPoint_eq (value : Rat) : fixedPoint value =
    ((if value < 0 then ['-'] else []) ++ Nat.toDigits 10 (scaled value / 10 ^ 10)) ++
      '.' :: decimals (scaled value) := by
  change (if value < 0 then ['-'] else []) ++ Nat.toDigits 10 (scaled value / 10 ^ 10) ++
    '.' :: List.replicate (10 - (Nat.toDigits 10 (scaled value % 10 ^ 10)).length) '0' ++
      Nat.toDigits 10 (scaled value % 10 ^ 10) = _
  generalize scaled value = units
  rw [decimals, List.append_assoc _ _ (Nat.toDigits 10 (units % 10 ^ 10)), List.cons_append]

/-- The numeral that is printed for so many units of the last decimal. -/
def fixed (negative : Bool) (units : Nat) : Numeral :=
  decimal negative (units / 10 ^ 10) (strip (decimals units))
    (strip_digital (decimals_digital units))

theorem div_add_mod_div (n : Nat) {b : Nat} (positive : b ≠ 0) :
    ((n / b : Nat) : Rat) + ((n % b : Nat) : Rat) / (b : Rat) = (n : Rat) / b := by
  have parts : ((b * (n / b) + n % b : Nat) : Rat) = n := by rw [Nat.div_add_mod]
  have base : (b : Rat) ≠ 0 := Nat.cast_ne_zero.mpr positive
  push_cast at parts
  rw [← parts]
  field_simp

theorem fixed_value (negative : Bool) (units : Nat) :
    (fixed negative units).value = (if negative then -1 else 1) * ((units : Rat) / 10 ^ 10) := by
  have whole := div_add_mod_div units (pow_ne_zero 10 (by decide : (10 : Nat) ≠ 0))
  rw [Nat.cast_pow, Nat.cast_ofNat] at whole
  rw [fixed, decimal_value, strip_value, decimals_ofDigits, decimals_length, whole]
  cases negative <;> simp

theorem truncate_fixed (negative : Bool) (units : Nat) :
    truncate (((if negative then ['-'] else []) ++ Nat.toDigits 10 (units / 10 ^ 10)) ++
      '.' :: decimals units) = (fixed negative units).text := by
  rw [truncate_eq (decimals_digital units), fixed, decimal_text, List.append_assoc]

theorem truncate_length (buffer : List Char) : (truncate buffer).length ≤ buffer.length := by
  have shorter : (buffer.reverse.dropWhile (· = '0')).length ≤ buffer.length :=
    Nat.le_trans (List.length_dropWhile_le ..) (by rw [List.length_reverse])
  unfold truncate
  dsimp only
  split
  · split
    · rw [List.length_reverse, List.length_drop]
      omega
    · rwa [List.length_reverse]
  · exact Nat.le_refl _

/-- A finite double is printed with a sign and ten decimals. -/
theorem sprintf_fixed {real : Double} (isFinite : real.IsFinite) : ∃ negative units,
    truncate (sprintf real) = (fixed negative units).text ∧
      real.printed = (fixed negative units).value := by
  cases isFinite with
  | finite value =>
      refine ⟨decide (value < 0), scaled value, ?_, ?_⟩
      · have same := truncate_fixed (decide (value < 0)) (scaled value)
        simp only [decide_eq_true_eq] at same
        rw [sprintf, fixedPoint_eq, same]
      · have same := fixed_value (decide (value < 0)) (scaled value)
        simp only [decide_eq_true_eq] at same
        rw [same]
        rfl
  | negativeZero =>
      have units : scaled 0 = 0 := by
        rw [scaled, Rat.num_zero, Int.natAbs_zero, Nat.zero_mul]
        rfl
      have digits := fixedPoint_eq 0
      rw [if_neg (lt_irrefl 0), units] at digits
      refine ⟨true, 0, ?_, ?_⟩
      · rw [sprintf, digits]
        exact truncate_fixed true 0
      · rw [fixed_value, Nat.cast_zero, zero_div, mul_zero]
        rfl

/-- A double is printed as the number its ten decimals stand for. -/
theorem real_layout {double : Rat → Rat} {real : Double} {text : List Char}
    (written : Double.valueToString double real = .ok text)
    (isFinite : (real.rounded double).IsFinite) :
    Layout Fits (.value (.number (real.rounded double).printed)) text := by
  rw [Double.valueToString] at written
  split at written
  · cases written
  · rename_i fits
    cases written
    have shorter := truncate_length (sprintf (real.rounded double))
    obtain ⟨negative, units, same, value⟩ := sprintf_fixed isFinite
    rw [same] at shorter ⊢
    rw [value]
    refine .number _ ?_
    rw [Fits, bufferSize]
    omega

/-! ## Strings -/

theorem escape_quoted {c : Char} {content text : List Char} (noNul : c ≠ '\x00')
    (rest : Quoted content text) : Quoted (c :: content) (escape c ++ text) := by
  unfold escape
  repeat' split
  all_goals first
    | exact .plain c ‹_› ‹_› noNul rest
    | (rename_i same; rw [same]; exact .escaped _ _ (by simp [escapes]) rest)

theorem escape_plain {c : Char} (plain : isSpecial c = false) : escape c = [c] := by
  rw [isSpecial, decide_eq_false_iff_not] at plain
  unfold escape
  simp only [not_or] at plain
  obtain ⟨h₁, h₂, h₃, h₄, h₅, h₆, h₇⟩ := plain
  rw [if_neg h₁, if_neg h₂, if_neg h₃, if_neg h₄, if_neg h₅, if_neg h₆, if_neg h₇]

/-- Without special characters nothing is escaped. -/
theorem valueToQuotedString_eq (value : String) :
    valueToQuotedString value = '"' :: (value.toList.flatMap escape ++ ['"']) := by
  rw [valueToQuotedString]
  split
  · rfl
  · rename_i none
    have plain : value.toList.flatMap escape = value.toList := by
      have each : ∀ c ∈ value.toList, escape c = [c] := fun c member => escape_plain (by
        simpa using fun special => none (List.any_eq_true.mpr ⟨c, member, special⟩))
      rw [List.flatMap_congr each, List.flatMap_singleton']
    rw [plain]
    rfl

theorem flatMap_quoted {content : List Char} (noNul : '\x00' ∉ content) :
    Quoted content (content.flatMap escape ++ ['"']) := by
  induction content with
  | nil => exact .close
  | cons c content ih =>
      rw [List.flatMap_cons, List.append_assoc]
      refine escape_quoted (fun nul => noNul (nul ▸ List.mem_cons_self)) (ih fun member => ?_)
      exact noNul (List.mem_cons_of_mem c member)

end AsyncPing
