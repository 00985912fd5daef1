import Mathlib.Data.Rat.Defs

/-!
The part of the vendored `Json::Value` (`depend/json/json_value.cpp`) that the
request parser and the response builder use. A string value is what its
NUL-terminated `string_` holds. Array elements are kept by position, object members in
key order. Comments do not belong to a value here; the writers take them beside it.
-/
namespace AsyncPing

/-- What a double holds, NaN left out. A number that was computed has not been rounded
yet; it is where the double is printed. -/
inductive Double
  | finite (value : Rat)
  | negativeZero
  | infinity (negative : Bool)

namespace Double

/-- No double is as large. -/
def bound : Rat := 2 ^ 1024

/-- The double next to the number of this sign and size; `double` rounds to 53 bits. -/
def nearest (double : Rat → Rat) (negative : Bool) (size : Rat) : Double :=
  let value := double (if negative then -size else size)
  if value ≤ -bound ∨ bound ≤ value then infinity negative
  else if negative ∧ value = 0 then negativeZero
  else finite value

def rounded (double : Rat → Rat) : Double → Double
  | finite value => nearest double (value < 0) (if value < 0 then -value else value)
  | negativeZero => negativeZero
  | infinity negative => infinity negative

end Double

inductive Value
  | nullValue
  | intValue (int : Int32)
  | uintValue (uint : UInt32)
  | realValue (real : Double)
  | stringValue (string : String)
  | booleanValue (bool : Bool)
  | arrayValue (elements : List Value)
  | objectValue (members : List (String × Value))

/-- Exceptions and failed assertions: those of the accessors, and the one
`new[]` throws for a negative length. -/
inductive Thrown
  | runtimeError (message : String)
  | assertion
  | badArrayLength
  deriving DecidableEq

namespace Value

def minInt : Int := -2147483648
def maxInt : Int := 2147483647

def isNull : Value → Bool
  | nullValue => true
  | _ => false

/-- `isArray` and `isObject` are both true of null. -/
def isArray : Value → Bool
  | nullValue | arrayValue _ => true
  | _ => false

def isObject : Value → Bool
  | nullValue | objectValue _ => true
  | _ => false

def asString : Value → Except Thrown String
  | nullValue => .ok ""
  | stringValue s => .ok s
  | booleanValue b => .ok (if b then "true" else "false")
  | intValue _ | uintValue _ | realValue _ | arrayValue _ | objectValue _ =>
      .error (.runtimeError "Type is not convertible to string")

def asInt : Value → Except Thrown Int32
  | nullValue => .ok 0
  | intValue i => .ok i
  | uintValue u =>
      if u < 2147483647 then .ok u.toInt32
      else .error (.runtimeError "integer out of signed integer range")
  | realValue (.finite r) =>
      if (minInt : Rat) ≤ r ∧ r ≤ (maxInt : Rat) then .ok (Int32.ofInt (r.num.tdiv r.den))
      else .error (.runtimeError "Real out of signed integer range")
  | realValue .negativeZero => .ok 0
  | realValue (.infinity _) => .error (.runtimeError "Real out of signed integer range")
  | booleanValue b => .ok (if b then 1 else 0)
  | stringValue _ | arrayValue _ | objectValue _ =>
      .error (.runtimeError "Type is not convertible to int")

/-- Number of values in an array or object, a 32-bit unsigned count. -/
def size : Value → UInt32
  | arrayValue elements => UInt32.ofNat elements.length
  | objectValue members => UInt32.ofNat members.length
  | _ => 0

def lookup (key : String) : List (String × Value) → Option Value
  | [] => none
  | (k, v) :: members => if k = key then some v else lookup key members

/-- `get(key, defaultValue)`: null is a value like any other, absence is not. -/
def get (value : Value) (key : String) (defaultValue : Value) : Except Thrown Value :=
  match value with
  | nullValue => .ok defaultValue
  | objectValue members => .ok ((lookup key members).getD defaultValue)
  | _ => .error .assertion

/-- What `operator[](key)` refers to; an absent member reads as null. -/
def member (key : String) : Value → Except Thrown Value
  | nullValue => .ok nullValue
  | objectValue members => .ok ((lookup key members).getD nullValue)
  | _ => .error .assertion

/-- What `operator[](index)` refers to; an absent element reads as null. -/
def element (index : Nat) : Value → Except Thrown Value
  | nullValue => .ok nullValue
  | arrayValue elements => .ok (elements[index]?.getD nullValue)
  | _ => .error .assertion

/-- `strcmp(a, b) < 0`: the bytes of UTF-8 are ordered as the characters are. -/
def precedes : List Char → List Char → Bool
  | _, [] => false
  | [], _ :: _ => true
  | c :: a, d :: b => if c.toNat = d.toNat then precedes a b else c.toNat < d.toNat

def updateMembers (key : String) (f : Value → Value) :
    List (String × Value) → List (String × Value)
  | [] => [(key, f nullValue)]
  | (k, v) :: members =>
      if k = key then (k, f v) :: members
      else if precedes key.toList k.toList then (key, f nullValue) :: (k, v) :: members
      else (k, v) :: updateMembers key f members

def updateElements (f : Value → Value) : Nat → List Value → List Value
  | 0, [] => [f nullValue]
  | 0, v :: elements => f v :: elements
  | i + 1, [] => nullValue :: updateElements f i []
  | i + 1, v :: elements => v :: updateElements f i elements

/-- Write through the reference `operator[](key)` returns. Null becomes an
object first; the callers never index a value of another type. -/
def modifyMember (key : String) (f : Value → Value) : Value → Value
  | nullValue => objectValue [(key, f nullValue)]
  | objectValue members => objectValue (updateMembers key f members)
  | v => v

def modifyElement (index : Nat) (f : Value → Value) : Value → Value
  | nullValue => arrayValue (updateElements f index [])
  | arrayValue elements => arrayValue (updateElements f index elements)
  | v => v

theorem updateElements_length (f : Value → Value) (elements : List Value) :
    updateElements f elements.length elements = elements ++ [f nullValue] := by
  induction elements with
  | nil => rfl
  | cons v elements ih => exact congrArg (v :: ·) ih

theorem updateElements_append (f : Value → Value) (elements : List Value) (v : Value) :
    updateElements f elements.length (elements ++ [v]) = elements ++ [f v] := by
  induction elements with
  | nil => rfl
  | cons u elements ih => exact congrArg (u :: ·) ih

end Value
end AsyncPing
