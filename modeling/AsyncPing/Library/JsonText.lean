import Mathlib.Algebra.Order.Field.Power
import Mathlib.Algebra.Order.Field.Rat
import Mathlib.Tactic.Positivity

/-!
Texts that lay out a JSON value, with comments where some readers take them. A value
has many layouts: blanks and comments between its tokens, its numerals, and which
characters of its strings are escaped. Names may repeat among the members of an object. The
numbers of a value need not be rational; those of a text are.
-/
namespace JsonText

inductive Json (ν : Type)
  | null
  | boolean (b : Bool)
  | number (value : ν)
  | string (content : List Char)
  | array (elements : List (Json ν))
  | object (members : List (List Char × Json ν))

namespace Json
variable {μ ν : Type} (f : ν → μ)

mutual

/-- The same value with other numbers. -/
def mapNumbers : Json ν → Json μ
  | null => null
  | boolean b => boolean b
  | number value => number (f value)
  | string content => string content
  | array elements => array (mapElements elements)
  | object members => object (mapMembers members)

def mapElements : List (Json ν) → List (Json μ)
  | [] => []
  | j :: elements => mapNumbers j :: mapElements elements

def mapMembers : List (List Char × Json ν) → List (List Char × Json μ)
  | [] => []
  | (name, j) :: members => (name, mapNumbers j) :: mapMembers members

end

end Json

/-! ## Numerals -/

/-- The number these decimal digits denote. -/
abbrev ofDigits (digits : List Char) : Nat := Nat.ofDigitChars 10 digits 0

structure Exponent where
  letter : Char
  sign : Option Char
  digits : List Char
  isLetter : letter = 'e' ∨ letter = 'E'
  isSign : ∀ c ∈ sign, c = '+' ∨ c = '-'
  digital : ∀ c ∈ digits, c.isDigit = true

namespace Exponent

def text (e : Exponent) : List Char := e.letter :: e.sign.toList ++ e.digits

def value (e : Exponent) : Int :=
  if e.sign = some '-' then -(ofDigits e.digits : Int) else ofDigits e.digits

end Exponent

structure Numeral where
  negative : Bool
  whole : List Char
  fraction : Option (List Char)
  exponent : Option Exponent
  digital : ∀ c ∈ whole, c.isDigit = true
  nonempty : whole ≠ []
  fractional : ∀ digits ∈ fraction, ∀ c ∈ digits, c.isDigit = true

namespace Numeral

def sign (n : Numeral) : List Char := if n.negative then ['-'] else []

def fractionText (n : Numeral) : List Char :=
  match n.fraction with
  | none => []
  | some digits => '.' :: digits

def exponentText (n : Numeral) : List Char :=
  match n.exponent with
  | none => []
  | some e => e.text

def text (n : Numeral) : List Char := n.sign ++ (n.whole ++ (n.fractionText ++ n.exponentText))

/-- The digits behind the point. -/
def decimals (n : Numeral) : List Char := n.fraction.getD []

/-- The power of ten the exponent stands for. -/
def scale (n : Numeral) : Int := (n.exponent.map Exponent.value).getD 0

/-- The number without its sign. -/
def size (n : Numeral) : Rat :=
  ((ofDigits n.whole : Rat) + ofDigits n.decimals / 10 ^ n.decimals.length) * 10 ^ n.scale

def value (n : Numeral) : Rat := if n.negative then -n.size else n.size

theorem size_nonneg (n : Numeral) : 0 ≤ n.size := by
  unfold size
  positivity

end Numeral

/-! ## Strings -/

def escapes : List (Char × Char) :=
  [('"', '"'), ('\\', '\\'), ('/', '/'), ('b', '\x08'), ('f', '\x0c'), ('n', '\n'), ('r', '\r'),
    ('t', '\t')]

/-- What may follow the opening quote of a string with this content. -/
inductive Quoted : List Char → List Char → Prop
  | close : Quoted [] ['"']
  | plain (c : Char) {content text : List Char} (noQuote : c ≠ '"') (noEscape : c ≠ '\\')
      (noNul : c ≠ '\x00') (rest : Quoted content text) : Quoted (c :: content) (c :: text)
  | escaped (code c : Char) {content text : List Char} (known : (code, c) ∈ escapes)
      (rest : Quoted content text) : Quoted (c :: content) ('\\' :: code :: text)

/-! ## What stands between tokens -/

def isBlank (c : Char) : Bool := c = ' ' ∨ c = '\t' ∨ c = '\r' ∨ c = '\n'

abbrev Blank (text : List Char) : Prop := ∀ c ∈ text, isBlank c = true

/-- Blanks and comments. -/
inductive Filler : List Char → Prop
  | blank (gap : List Char) (isGap : Blank gap) : Filler gap
  | block (gap body : List Char) {rest : List Char} (isGap : Blank gap)
      (unclosed : ¬['*', '/'] <:+: body) (more : Filler rest) :
      Filler (gap ++ '/' :: '*' :: (body ++ '*' :: '/' :: rest))
  | line (gap body : List Char) (stop : Char) {rest : List Char} (isGap : Blank gap)
      (inLine : ∀ c ∈ body, c ≠ '\r' ∧ c ≠ '\n') (ends : stop = '\r' ∨ stop = '\n')
      (more : Filler rest) : Filler (gap ++ '/' :: '/' :: (body ++ stop :: rest))

/-! ## Layouts -/

/-- What is laid out: a value, or what follows the opening bracket of a collection that is not
empty. -/
inductive Form
  | value (j : Json Rat)
  | elements (js : List (Json Rat))
  | members (ms : List (List Char × Json Rat))

/-- Which numerals are used is a parameter. -/
inductive Layout (allowed : Numeral → Prop) : Form → List Char → Prop
  | null : Layout allowed (.value .null) ['n', 'u', 'l', 'l']
  | true : Layout allowed (.value (.boolean true)) ['t', 'r', 'u', 'e']
  | false : Layout allowed (.value (.boolean false)) ['f', 'a', 'l', 's', 'e']
  | number (n : Numeral) (isAllowed : allowed n) : Layout allowed (.value (.number n.value)) n.text
  | string {content text : List Char} (quoted : Quoted content text) :
      Layout allowed (.value (.string content)) ('"' :: text)
  | emptyArray {gap : List Char} (isGap : Blank gap) :
      Layout allowed (.value (.array [])) ('[' :: (gap ++ [']']))
  | array {js : List (Json Rat)} {text : List Char} (inside : Layout allowed (.elements js) text) :
      Layout allowed (.value (.array js)) ('[' :: text)
  | emptyObject {gap : List Char} (isGap : Filler gap) :
      Layout allowed (.value (.object [])) ('{' :: (gap ++ ['}']))
  | object {ms : List (List Char × Json Rat)} {text : List Char}
      (inside : Layout allowed (.members ms) text) :
      Layout allowed (.value (.object ms)) ('{' :: text)
  | lastElement {j : Json Rat} {before text after : List Char} (filler : Filler before)
      (value : Layout allowed (.value j) text) (isGap : Blank after) :
      Layout allowed (.elements [j]) (before ++ (text ++ (after ++ [']'])))
  | element {j : Json Rat} {js : List (Json Rat)} {before text after rest : List Char}
      (filler : Filler before) (value : Layout allowed (.value j) text) (isGap : Blank after)
      (more : Layout allowed (.elements js) rest) :
      Layout allowed (.elements (j :: js)) (before ++ (text ++ (after ++ ',' :: rest)))
  | lastMember {name quoted : List Char} {j : Json Rat} {before gap middle text after : List Char}
      (filler : Filler before) (isName : Quoted name quoted) (isGap : Blank gap)
      (filler' : Filler middle) (value : Layout allowed (.value j) text) (filler'' : Filler after) :
      Layout allowed (.members [(name, j)])
        (before ++ ('"' :: (quoted ++ (gap ++ ':' :: (middle ++ (text ++ (after ++ ['}'])))))))
  | member {name quoted : List Char} {j : Json Rat} {ms : List (List Char × Json Rat)}
      {before gap middle text after rest : List Char}
      (filler : Filler before) (isName : Quoted name quoted) (isGap : Blank gap)
      (filler' : Filler middle) (value : Layout allowed (.value j) text) (filler'' : Filler after)
      (more : Layout allowed (.members ms) rest) :
      Layout allowed (.members ((name, j) :: ms))
        (before ++ ('"' :: (quoted ++ (gap ++ ':' :: (middle ++ (text ++ (after ++ ',' :: rest)))))))

end JsonText
