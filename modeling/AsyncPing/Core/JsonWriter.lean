import AsyncPing.Core.JsonReader

/-!
The writers of the vendored JSON library (`depend/json/json_writer.cpp`) and the two
of JsonValue. The comments of a value and of what it holds stand beside it; FastWriter
writes none. `double` rounds a number to 53 bits, which a computed real undergoes before it
is printed.
-/
namespace AsyncPing

inductive WriterFault
  | bufferOverrun (text : List Char)
  | assertion
  | outOfRange (index : Nat)
  deriving DecidableEq

/-! ## Scalars -/

/-- `uintToString`; a number of 32 bits has at most ten digits. -/
def uintToString : (digits : Nat) → UInt32 → List Char → List Char
  | 0, _, current => current
  | digits + 1, value, current =>
      let current := Char.ofNat ((value % 10).toNat + '0'.toNat) :: current
      if value / 10 ≠ 0 then uintToString digits (value / 10) current else current

def UInt32.valueToString (value : UInt32) : List Char := uintToString 10 value []

/-- The least int is its own negative. -/
def Int32.valueToString (value : Int32) : List Char :=
  if value < 0 then '-' :: uintToString 10 (-value).toUInt32 []
  else uintToString 10 value.toUInt32 []

/-- The quotient rounded to the nearest integer, a half to the even one. -/
def roundDiv (num den : Nat) : Nat :=
  if 2 * (num % den) < den ∨ 2 * (num % den) = den ∧ num / den % 2 = 0 then num / den
  else num / den + 1

/-- A number with ten decimals. -/
def fixedPoint (value : Rat) : List Char :=
  let scaled := roundDiv (value.num.natAbs * 10 ^ 10) value.den
  let fraction := Nat.toDigits 10 (scaled % 10 ^ 10)
  (if value < 0 then ['-'] else []) ++ Nat.toDigits 10 (scaled / 10 ^ 10) ++
    '.' :: List.replicate (10 - fraction.length) '0' ++ fraction

/-- `sprintf(buffer, "%.10f", value)`. -/
def sprintf : Double → List Char
  | .finite value => fixedPoint value
  | .negativeZero => '-' :: fixedPoint 0
  | .infinity negative => if negative then "-inf".toList else "inf".toList

/-- The zeros behind the last other digit go, and the point with them when it is
last. -/
def truncate (buffer : List Char) : List Char :=
  let stripped := buffer.reverse.dropWhile (· = '0')
  match stripped.dropWhile Char.isDigit with
  | '.' :: _ => if deref stripped = '.' then (stripped.drop 1).reverse else stripped.reverse
  | _ => buffer

/-- The buffer of `valueToString(double)` holds 32 chars with the NUL. -/
def Double.valueToString (double : Rat → Rat) (value : Double) :
    Except WriterFault (List Char) :=
  let buffer := sprintf (value.rounded double)
  if buffer.length + 1 > 32 then .error (.bufferOverrun buffer) else .ok (truncate buffer)

def Bool.valueToString (value : Bool) : List Char :=
  if value then "true".toList else "false".toList

def escape (c : Char) : List Char :=
  if c = '"' then ['\\', '"']
  else if c = '\\' then ['\\', '\\']
  else if c = '\x08' then ['\\', 'b']
  else if c = '\x0c' then ['\\', 'f']
  else if c = '\n' then ['\\', 'n']
  else if c = '\r' then ['\\', 'r']
  else if c = '\t' then ['\\', 't']
  else [c]

def isSpecial (c : Char) : Bool :=
  c = '"' ∨ c = '\\' ∨ c = '\x08' ∨ c = '\x0c' ∨ c = '\n' ∨ c = '\r' ∨ c = '\t'

def valueToQuotedString (value : String) : List Char :=
  if value.toList.any isSpecial then '"' :: value.toList.flatMap escape ++ ['"']
  else '"' :: value.toList ++ ['"']

/-! ## FastWriter -/

namespace FastWriter
variable (double : Rat → Rat) (yamlCompatiblityEnabled : Bool)

mutual

/-- What `FastWriter::writeValue` appends to `document_`. -/
def writeValue : Value → Except WriterFault (List Char)
  | .nullValue => .ok "null".toList
  | .intValue int => .ok (Int32.valueToString int)
  | .uintValue uint => .ok (UInt32.valueToString uint)
  | .realValue real => Double.valueToString double real
  | .stringValue string => .ok (valueToQuotedString string)
  | .booleanValue bool => .ok (Bool.valueToString bool)
  | .arrayValue elements => do return '[' :: (← writeElements true elements) ++ [']']
  | .objectValue members => do return '{' :: (← writeMembers true members) ++ ['}']

def writeElements : (first : Bool) → List Value → Except WriterFault (List Char)
  | _, [] => .ok []
  | first, value :: elements => do
    let text ← writeValue value
    let rest ← writeElements false elements
    return (if first then [] else [',']) ++ text ++ rest

def writeMembers : (first : Bool) → List (String × Value) → Except WriterFault (List Char)
  | _, [] => .ok []
  | first, (name, value) :: members => do
    let text ← writeValue value
    let rest ← writeMembers false members
    return (if first then [] else [',']) ++ valueToQuotedString name ++
      (if yamlCompatiblityEnabled then ": ".toList else ":".toList) ++ text ++ rest

end

def write (root : Value) : Except WriterFault (List Char) := do
  return (← writeValue double yamlCompatiblityEnabled root) ++ ['\n']

end FastWriter

/-! ## Comments -/

/-- The texts of `comments_`, by their placement. -/
structure Comments where
  before : Option (List Char)
  afterOnSameLine : Option (List Char)
  after : Option (List Char)

/-- The comments of a value and of everything in it: a list of positions, those of members
in key order, leads to each. -/
abbrev CommentsAt := List Nat → Comments

def CommentsAt.child (comments : CommentsAt) (index : Nat) : CommentsAt :=
  fun path => comments (index :: path)

def uncommented : CommentsAt := fun _ => ⟨none, none, none⟩

/-- A carriage return becomes a newline, one with a newline behind it too. -/
def normalizeEOL : List Char → List Char
  | [] => []
  | '\r' :: '\n' :: text => '\n' :: normalizeEOL text
  | c :: text => (if c = '\r' then '\n' else c) :: normalizeEOL text

/-! ## StyledWriter and StyledStreamWriter

The two differ in how they begin a line and in the indentation. -/

structure StyledWriter where
  document : List Char
  childValues : List (List Char)
  indentString : List Char
  addChildValues : Bool
  indentation : List Char
  toStream : Bool

abbrev Writing := Exec WriterFault StyledWriter

namespace StyledWriter

def rightMargin : Nat := 74

def append (text : List Char) : Writing Unit :=
  modify fun w => { w with document := w.document ++ text }

def pushValue (value : List Char) : Writing Unit := do
  let w ← get
  if w.addChildValues then set { w with childValues := w.childValues ++ [value] }
  else append value

/-- A stream always begins a line; a string that ends in a space is indented
already. -/
def writeIndent : Writing Unit := do
  let w ← get
  if w.toStream then append ('\n' :: w.indentString)
  else
    match w.document.getLast? with
    | none => append w.indentString
    | some last =>
      if last = ' ' then return
      else if last ≠ '\n' then append ('\n' :: w.indentString)
      else append w.indentString

def writeWithIndent (value : List Char) : Writing Unit := do
  writeIndent
  append value

def indent : Writing Unit :=
  modify fun w => { w with indentString := w.indentString ++ w.indentation }

def unindent : Writing Unit := do
  let w ← get
  if w.indentString.length < w.indentation.length then throw .assertion
  set { w with
    indentString := w.indentString.take (w.indentString.length - w.indentation.length) }

def writeCommentBeforeValue (root : Comments) : Writing Unit :=
  match root.before with
  | none => return
  | some text => append (normalizeEOL text ++ ['\n'])

def writeCommentAfterValueOnSameLine (root : Comments) : Writing Unit := do
  match root.afterOnSameLine with
  | none => pure ()
  | some text => append (' ' :: normalizeEOL text)
  match root.after with
  | none => return
  | some text => append ('\n' :: normalizeEOL text ++ ['\n'])

def hasCommentForValue (value : Comments) : Bool :=
  value.before.isSome || value.afterOnSameLine.isSome || value.after.isSome

/-- An element that takes lines of its own. -/
def hasChildren (value : Value) : Bool := (value.isArray || value.isObject) && value.size > 0

/-- The loop of `writeArrayValue` that writes the texts of the elements, a line
each. -/
def writeChildLines (comments : CommentsAt) : (index remaining : Nat) → Writing Unit
  | _, 0 => return
  | index, remaining + 1 => do
    writeCommentBeforeValue (comments.child index [])
    let w ← get
    match w.childValues[index]? with
    | none => throw (.outOfRange index)
    | some child => writeWithIndent child
    if remaining ≠ 0 then append [',']
    writeCommentAfterValueOnSameLine (comments.child index [])
    writeChildLines comments (index + 1) remaining

/-- The loop of `writeArrayValue` that writes the texts of the elements on one
line. -/
def writeChildRow : (index remaining : Nat) → Writing Unit
  | _, 0 => return
  | index, remaining + 1 => do
    if index > 0 then append ", ".toList
    let w ← get
    match w.childValues[index]? with
    | none => throw (.outOfRange index)
    | some child => append child
    writeChildRow (index + 1) remaining

/-- `measure` is the loop that writes the elements and adds up their lengths. -/
def isMultineArray (elements : List Value) (measure : Writing (Nat × Bool)) : Writing Bool := do
  modify fun w => { w with childValues := [] }
  if elements.length * 3 ≥ rightMargin ∨ elements.any hasChildren then pure true
  else do
    modify fun w => { w with addChildValues := true }
    let (lineLength, isMultiLine) ← measure
    modify fun w => { w with addChildValues := false }
    pure (isMultiLine || lineLength ≥ rightMargin)

/-- `writeElements` is the loop that writes the elements where their texts were not
collected. -/
def writeArrayValue (comments : CommentsAt) (elements : List Value)
    (measure : Writing (Nat × Bool)) (writeElements : Writing Unit) : Writing Unit := do
  let size := elements.length
  if size = 0 then pushValue "[]".toList
  else
    let isMultiLine ← isMultineArray elements measure
    if isMultiLine then
      writeWithIndent ['[']
      indent
      let w ← get
      if !w.childValues.isEmpty then writeChildLines comments 0 size else writeElements
      unindent
      writeWithIndent [']']
    else
      let w ← get
      if w.childValues.length ≠ size then throw .assertion
      append "[ ".toList
      writeChildRow 0 size
      append " ]".toList

section values
variable (double : Rat → Rat)

mutual

def writeValue (comments : CommentsAt) : Value → Writing Unit
  | .nullValue => pushValue "null".toList
  | .intValue int => pushValue (Int32.valueToString int)
  | .uintValue uint => pushValue (UInt32.valueToString uint)
  | .realValue real =>
    match Double.valueToString double real with
    | .error fault => throw fault
    | .ok text => pushValue text
  | .stringValue string => pushValue (valueToQuotedString string)
  | .booleanValue bool => pushValue (Bool.valueToString bool)
  | .arrayValue elements =>
      writeArrayValue comments elements
        (measure comments 0 (4 + (elements.length - 1) * 2) false elements)
        (writeElements comments 0 elements)
  | .objectValue members => do
    if members.isEmpty then pushValue ['{', '}']
    else
      writeWithIndent ['{']
      indent
      writeMembers comments 0 members
      unindent
      writeWithIndent ['}']

/-- The loop of `isMultineArray` that collects the texts of the elements and adds up
their lengths. A comment is looked at where the array takes several lines already. -/
def measure (comments : CommentsAt) : (index lineLength : Nat) → (isMultiLine : Bool) →
    List Value → Writing (Nat × Bool)
  | _, lineLength, isMultiLine, [] => return (lineLength, isMultiLine)
  | index, lineLength, isMultiLine, value :: elements =>
    if isMultiLine then return (lineLength, isMultiLine)
    else do
      writeValue (comments.child index) value
      let w ← get
      match w.childValues[index]? with
      | none => throw (.outOfRange index)
      | some child =>
        let isMultiLine := isMultiLine && hasCommentForValue (comments.child index [])
        measure comments (index + 1) (lineLength + child.length) isMultiLine elements

/-- The loop of `writeArrayValue` that writes the elements, a line or more each. -/
def writeElements (comments : CommentsAt) : (index : Nat) → List Value → Writing Unit
  | _, [] => return
  | index, value :: elements => do
    writeCommentBeforeValue (comments.child index [])
    writeIndent
    writeValue (comments.child index) value
    if !elements.isEmpty then append [',']
    writeCommentAfterValueOnSameLine (comments.child index [])
    writeElements comments (index + 1) elements

def writeMembers (comments : CommentsAt) : (index : Nat) → List (String × Value) → Writing Unit
  | _, [] => return
  | index, (name, value) :: members => do
    writeCommentBeforeValue (comments.child index [])
    writeWithIndent (valueToQuotedString name)
    append " : ".toList
    writeValue (comments.child index) value
    if !members.isEmpty then append [',']
    writeCommentAfterValueOnSameLine (comments.child index [])
    writeMembers comments (index + 1) members

end

/-- `write` of a new writer. -/
def write (toStream : Bool) (indentation : List Char) (comments : CommentsAt) (root : Value) :
    Except WriterFault (List Char) := do
  let start : StyledWriter :=
    { document := [], childValues := [], indentString := [], addChildValues := false,
      indentation, toStream }
  let ((), w) ← (do
    writeCommentBeforeValue (comments [])
    writeValue double comments root
    writeCommentAfterValueOnSameLine (comments [])
    append ['\n'] : Writing Unit) start
  return w.document

end values
end StyledWriter

/-- `operator<<`: what a StyledStreamWriter puts on the stream. -/
def StyledStreamWriter.write (double : Rat → Rat) (comments : CommentsAt) (root : Value) :
    Except WriterFault (List Char) :=
  StyledWriter.write double true ['\t'] comments root

namespace JsonValue

/-- A newline at the end goes. -/
def trimmed (text : List Char) : List Char :=
  if text.getLast? = some '\n' then text.dropLast else text

def toString (double : Rat → Rat) (jvalue : Value) : Except WriterFault (List Char) := do
  return trimmed (← FastWriter.write double false jvalue)

def toFormatString (double : Rat → Rat) (comments : CommentsAt) (jvalue : Value) :
    Except WriterFault (List Char) := do
  return trimmed (← StyledWriter.write double false [' ', ' ', ' '] comments jvalue)

end JsonValue
end AsyncPing
