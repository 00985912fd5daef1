import AsyncPing.Core.JsonValue
import AsyncPing.Library.Machine
import Mathlib.Algebra.Order.Field.Rat

/-!
The vendored `Json::Reader` (`depend/json/json_reader.cpp`) and `JsonValue::parse`.
A char is a byte, so its code is below 256. A location is the text from there to
`end_`, behind which stands the NUL of `c_str()`. What the node stack points to is
passed to the functions that assign to it and comes back changed; the comments
themselves are not kept, only the checks made when one is stored. `double` rounds a
number to 53 bits.
-/
namespace AsyncPing

abbrev Location := List Char

/-- `std::string(begin, end)`. -/
def between (start stop : Location) : List Char := start.take (start.length - stop.length)

/-- `*location`. -/
def deref : Location → Char
  | [] => '\x00'
  | c :: _ => c

/-- What a `const char *` made from this string holds. -/
def cString (text : List Char) : String := String.ofList (text.takeWhile (· ≠ '\x00'))

/-! ## Numerals -/

/-- The exponent of a numeral, when the text goes on with one. -/
def scanExponent : List Char → Int
  | [] => 0
  | e :: text =>
      if e ≠ 'e' ∧ e ≠ 'E' then 0
      else
        let (negative, digits) := match text with
          | '-' :: rest => (true, rest)
          | '+' :: rest => (false, rest)
          | rest => (false, rest)
        let size : Int := Nat.ofDigitChars 10 (digits.takeWhile Char.isDigit) 0
        if negative then -size else size

/-- `sscanf(buffer, "%lf", &value)`: the double next to the number that the longest
numeral at the start of the buffer denotes; absent when there is none and the count is 0. -/
def sscanf (double : Rat → Rat) (buffer : List Char) : Option Double :=
  let (negative, text) := match buffer with
    | '-' :: rest => (true, rest)
    | '+' :: rest => (false, rest)
    | rest => (false, rest)
  let whole := text.takeWhile Char.isDigit
  let (fraction, rest) := match text.dropWhile Char.isDigit with
    | '.' :: more => (more.takeWhile Char.isDigit, more.dropWhile Char.isDigit)
    | rest => ([], rest)
  if whole = [] ∧ fraction = [] then none
  else
    let size : Rat := Nat.ofDigitChars 10 (whole ++ fraction) 0 *
      (10 : Rat) ^ (scanExponent rest - fraction.length)
    some (Double.nearest double negative size)

/-! ## The reader -/

/-- `Reader::TokenType`. -/
inductive TokenType
  | tokenEndOfStream
  | tokenObjectBegin
  | tokenObjectEnd
  | tokenArrayBegin
  | tokenArrayEnd
  | tokenString
  | tokenNumber
  | tokenTrue
  | tokenFalse
  | tokenNull
  | tokenArraySeparator
  | tokenMemberSeparator
  | tokenComment
  | tokenError
  deriving DecidableEq

structure Token where
  type : TokenType
  start : Location
  stop : Location

structure ErrorInfo where
  token : Token
  message : String
  extra : Option Location

/-- The exceptions and failed assertions of the reader, and a write behind the end
of the buffer of `decodeDouble`. -/
inductive ReaderFault
  | thrown (exception : Thrown)
  | bufferOverrun (token : List Char)
  | outOfFuel
  deriving DecidableEq

/-- Of `lastValue_` only whether it is null is kept. -/
structure Reader where
  errors : List ErrorInfo
  document : List Char
  current : Location
  lastValueEnd : Option Location
  lastValue : Bool
  commentsBefore : List Char
  collectComments : Bool

abbrev Reading := Exec ReaderFault Reader

namespace Reader

def containsNewLine (start stop : Location) : Bool :=
  (between start stop).any fun c => c = '\n' ∨ c = '\r'

def getNextChar : Reading Char := do
  let r ← get
  match r.current with
  | [] => return '\x00'
  | c :: rest =>
    set { r with current := rest }
    return c

def isSpace (c : Char) : Bool := c = ' ' ∨ c = '\t' ∨ c = '\r' ∨ c = '\n'

def skipSpaces : Reading Unit :=
  modify fun r => { r with current := r.current.dropWhile isSpace }

/-- `Reader::match`. -/
def matchPattern (pattern : List Char) : Reading Bool := do
  let r ← get
  if pattern.isPrefixOf r.current then
    set { r with current := r.current.drop pattern.length }
    return true
  else return false

/-! ### Errors -/

def addError (message : String) (token : Token) (extra : Option Location) : Reading Bool := do
  modify fun r => { r with errors := r.errors ++ [⟨token, message, extra⟩] }
  return false

/-! ### Comments -/

/-- The check of `Value::CommentInfo::setComment`. -/
def setComment (text : List Char) : Reading Unit :=
  if deref text = '\x00' ∨ deref text = '/' then return
  else throw (.thrown (.runtimeError "Comments must start with /"))

/-- `placement` is `commentAfterOnSameLine` or `commentBefore`. -/
def addComment (start stop : Location) (onSameLine : Bool) : Reading Unit := do
  let r ← get
  if !r.collectComments then throw (.thrown .assertion)
  else if onSameLine then
    if !r.lastValue then throw (.thrown .assertion) else setComment (between start stop)
  else
    let separated := if r.commentsBefore.isEmpty then [] else r.commentsBefore ++ ['\n']
    set { r with commentsBefore := separated ++ between start stop }

/-- The loop of `readCStyleComment`. -/
def skipCStyle : Location → Location
  | [] => []
  | c :: rest => if c = '*' ∧ deref rest = '/' then rest else skipCStyle rest

def readCStyleComment : Reading Bool := do
  modify fun r => { r with current := skipCStyle r.current }
  let c ← getNextChar
  return c = '/'

/-- The loop of `readCppStyleComment`. -/
def skipCppStyle : Location → Location
  | [] => []
  | c :: rest => if c = '\r' ∨ c = '\n' then rest else skipCppStyle rest

def readCppStyleComment : Reading Bool := do
  modify fun r => { r with current := skipCppStyle r.current }
  return true

def readCommentBody (c : Char) : Reading Bool :=
  if c = '*' then readCStyleComment
  else if c = '/' then readCppStyleComment
  else return false

/-- Whether the comment is placed behind the last value. -/
def isOnSameLine (r : Reader) (c : Char) (commentBegin : Location) : Bool :=
  match r.lastValueEnd with
  | none => false
  | some lastValueEnd => !containsNewLine lastValueEnd commentBegin &&
      (c ≠ '*' || !containsNewLine commentBegin r.current)

/-- `commentBegin` is where the first slash is. -/
def readComment (commentBegin : Location) : Reading Bool := do
  let c ← getNextChar
  let successful ← readCommentBody c
  if !successful then return false
  else
    let r ← get
    if !r.collectComments then return true
    else
      addComment commentBegin r.current (r.isOnSameLine c commentBegin)
      return true

/-! ### Tokens -/

def isNumberChar (c : Char) : Bool :=
  c.isDigit || c = '.' || c = 'e' || c = 'E' || c = '+' || c = '-'

def readNumber : Reading Unit :=
  modify fun r => { r with current := r.current.dropWhile isNumberChar }

/-- The loop of `readString`: where it stops, and whether at a closing quote. -/
def skipString : Location → Bool × Location
  | [] => (false, [])
  | c :: rest =>
      if c = '\\' then
        match rest with
        | [] => (false, [])
        | _ :: rest => skipString rest
      else if c = '"' then (true, rest)
      else skipString rest

def readString : Reading Bool := do
  let r ← get
  let (closed, stop) := skipString r.current
  set { r with current := stop }
  return closed

/-- The switch of `readToken`: the type, and `ok`. -/
def scanToken (start : Location) (c : Char) : Reading (TokenType × Bool) :=
  match c with
  | '{' => return (.tokenObjectBegin, true)
  | '}' => return (.tokenObjectEnd, true)
  | '[' => return (.tokenArrayBegin, true)
  | ']' => return (.tokenArrayEnd, true)
  | '"' => return (.tokenString, ← readString)
  | '/' => return (.tokenComment, ← readComment start)
  | 't' => return (.tokenTrue, ← matchPattern "rue".toList)
  | 'f' => return (.tokenFalse, ← matchPattern "alse".toList)
  | 'n' => return (.tokenNull, ← matchPattern "ull".toList)
  | ',' => return (.tokenArraySeparator, true)
  | ':' => return (.tokenMemberSeparator, true)
  | '\x00' => return (.tokenEndOfStream, true)
  | c =>
    if c.isDigit || c = '-' then do
      readNumber
      return (.tokenNumber, true)
    else return (.tokenError, false)

/-- `readToken` always returns true. -/
def readToken : Reading Token := do
  skipSpaces
  let r ← get
  let start := r.current
  let c ← getNextChar
  let (type, ok) ← scanToken start c
  let r ← get
  return { type := if ok then type else .tokenError, start, stop := r.current }

/-- Read tokens up to the first that is no comment; `fuel` bounds their number. -/
def skipCommentTokensFrom : (fuel : Nat) → Reading Token
  | 0 => throw .outOfFuel
  | fuel + 1 => do
    let token ← readToken
    if token.type = .tokenComment then skipCommentTokensFrom fuel else return token

def skipCommentTokens : Reading Token := do
  let r ← get
  skipCommentTokensFrom (r.current.length + 1)

/-- Read on when the token is a comment. -/
def skipCommentsFrom (token : Token) : Reading Token :=
  if token.type = .tokenComment then skipCommentTokens else return token

/-- The loop of `recoverFromError`. -/
def skipUntil (skipUntilToken : TokenType) : (fuel : Nat) → Reading Unit
  | 0 => throw .outOfFuel
  | fuel + 1 => do
    let skip ← readToken
    if skip.type = skipUntilToken ∨ skip.type = .tokenEndOfStream then return
    else skipUntil skipUntilToken fuel

def recoverFromError (skipUntilToken : TokenType) : Reading Bool := do
  let r ← get
  let errorCount := r.errors.length
  skipUntil skipUntilToken (r.current.length + 1)
  modify fun r => { r with errors := r.errors.take errorCount }
  return false

def addErrorAndRecover (message : String) (token : Token) (skipUntilToken : TokenType) :
    Reading Bool := do
  let _ ← addError message token none
  recoverFromError skipUntilToken

/-! ### Strings -/

def hexDigit (c : Char) : Option Nat :=
  if '0' ≤ c ∧ c ≤ '9' then some (c.toNat - '0'.toNat)
  else if 'a' ≤ c ∧ c ≤ 'f' then some (c.toNat - 'a'.toNat + 10)
  else if 'A' ≤ c ∧ c ≤ 'F' then some (c.toNat - 'A'.toNat + 10)
  else none

/-- The loop of `decodeUnicodeEscapeSequence`; an error is its message and where it
was found. -/
def decodeHex : (count : Nat) → UInt32 → List Char → Except (String × List Char) UInt32
  | 0, unicode, _ => .ok unicode
  | _ + 1, unicode, [] => .ok unicode
  | count + 1, unicode, c :: rest =>
      match hexDigit c with
      | some digit => decodeHex count (unicode * 16 + UInt32.ofNat digit) rest
      | none => .error
          ("Bad unicode escape sequence in string: hexadecimal digit expected.", rest)

def decodeUnicodeEscapeSequence (text : List Char) : Except (String × List Char) UInt32 :=
  if text.length < 4 then
    .error ("Bad unicode escape sequence in string: four digits expected.", text)
  else decodeHex 4 0 text

/-- The loop of `decodeString` over what stands between the quotes. The escaped
code unit is not added to the result; its four digits are skipped. -/
def decodeChars : (skip : Nat) → List Char → List Char → Except (String × List Char) (List Char)
  | _, [], decoded => .ok decoded
  | skip + 1, _ :: text, decoded => decodeChars skip text decoded
  | 0, c :: text, decoded =>
      if c = '"' then .ok decoded
      else if c ≠ '\\' then decodeChars 0 text (decoded ++ [c])
      else
        match text with
        | [] => .error ("Empty escape sequence in string", [])
        | '"' :: text => decodeChars 0 text (decoded ++ ['"'])
        | '/' :: text => decodeChars 0 text (decoded ++ ['/'])
        | '\\' :: text => decodeChars 0 text (decoded ++ ['\\'])
        | 'b' :: text => decodeChars 0 text (decoded ++ ['\x08'])
        | 'f' :: text => decodeChars 0 text (decoded ++ ['\x0c'])
        | 'n' :: text => decodeChars 0 text (decoded ++ ['\n'])
        | 'r' :: text => decodeChars 0 text (decoded ++ ['\r'])
        | 't' :: text => decodeChars 0 text (decoded ++ ['\t'])
        | 'u' :: text =>
            match decodeUnicodeEscapeSequence text with
            | .error e => .error e
            | .ok _ => decodeChars 4 text decoded
        | _ :: text => .error ("Bad escape sequence in string", text)

/-- `decodeString(token, decoded)`; no string when it returns false. -/
def decodeStringInto (token : Token) : Reading (Option (List Char)) := do
  let inner := (between token.start token.stop).drop 1
  match decodeChars 0 inner.dropLast [] with
  | .ok decoded => return some decoded
  | .error (message, left) =>
    let _ ← addError message token (some (left ++ '"' :: token.stop))
    return none

/-- The value is what is left of the string at its first NUL. -/
def decodeString (token : Token) (current : Value) : Reading (Bool × Value) := do
  match ← decodeStringInto token with
  | none => return (false, current)
  | some decoded => return (true, .stringValue (cString decoded))

/-! ### Numbers -/

def notANumber (token : Token) : Reading Bool :=
  addError ("'" ++ String.ofList (between token.start token.stop) ++ "' is not a number.") token
    none

def bufferSize : Nat := 32

/-- `buffer[length] = 0` is behind the end of the buffer when the token is as long
as the buffer. The int `length` is taken to hold the length of any token. -/
def decodeDouble (double : Rat → Rat) (token : Token) (current : Value) :
    Reading (Bool × Value) := do
  let text := between token.start token.stop
  if text.length = bufferSize then throw (.bufferOverrun text)
  match sscanf double text with
  | none => return (← notANumber token, current)
  | some value => return (true, .realValue value)

/-- What the loop of `decodeNumber` ends with. -/
inductive Decoded
  | notANumber
  | tooLarge
  | value (value : UInt32)

def decodeDigits (threshold : UInt32) : UInt32 → List Char → Decoded
  | value, [] => .value value
  | value, c :: text =>
      if c < '0' ∨ c > '9' then .notANumber
      else if value ≥ threshold then .tooLarge
      else decodeDigits threshold (value * 10 + UInt32.ofNat (c.toNat - '0'.toNat)) text

/-- Only a sign in the first place leaves the token an integer. -/
def isDouble (text : List Char) : Bool :=
  text.any (fun c => c = '.' ∨ c = 'e' ∨ c = 'E' ∨ c = '+') || (text.drop 1).any (· = '-')

def decodeNumber (double : Rat → Rat) (token : Token) (current : Value) :
    Reading (Bool × Value) := do
  let text := between token.start token.stop
  if isDouble text then decodeDouble double token current
  else
    let isNegative := deref text = '-'
    let digits := if isNegative then text.drop 1 else text
    let threshold : UInt32 := if isNegative then 2147483648 / 10 else 4294967295 / 10
    match decodeDigits threshold 0 digits with
    | .notANumber => return (← notANumber token, current)
    | .tooLarge => decodeDouble double token current
    | .value value =>
      if isNegative then return (true, .intValue (-value.toInt32))
      else if value ≤ 2147483647 then return (true, .intValue value.toInt32)
      else return (true, .uintValue value)

/-! ### Values -/

/-- The comments read before a value are stored with it. -/
def takeCommentsBefore : Reading Unit := do
  let r ← get
  if r.collectComments && !r.commentsBefore.isEmpty then
    setComment r.commentsBefore
    set { r with commentsBefore := [] }
  else return

/-- The end of `readValue`. -/
def recordValue (result : Bool × Value) : Reading (Bool × Value) := do
  modify fun r =>
    if r.collectComments then { r with lastValueEnd := some r.current, lastValue := true } else r
  return result

section values
variable (double : Rat → Rat)

mutual

/-- `current` is what the top of the node stack points to. The cases of `{` and `[`
begin `readObject` and `readArray`; the loops of these follow. -/
def readValue : (fuel : Nat) → (current : Value) → Reading (Bool × Value)
  | 0, _ => throw .outOfFuel
  | fuel + 1, current => do
    let token ← skipCommentTokens
    takeCommentsBefore
    match token.type with
    | .tokenObjectBegin => recordValue (← readObjectLoop fuel [] [])
    | .tokenArrayBegin =>
      skipSpaces
      let r ← get
      if deref r.current = ']' then
        let _ ← readToken
        recordValue (true, .arrayValue [])
      else recordValue (← readArrayLoop fuel [])
    | .tokenNumber => recordValue (← decodeNumber double token current)
    | .tokenString => recordValue (← decodeString token current)
    | .tokenTrue => recordValue (true, .booleanValue true)
    | .tokenFalse => recordValue (true, .booleanValue false)
    | .tokenNull => recordValue (true, .nullValue)
    | _ =>
      return (← addError "Syntax error: value, object or array expected." token none, current)

/-- The loop of `readObject`; `name` is the last member's, empty at first. -/
def readObjectLoop : (fuel : Nat) → (name : List Char) → (members : List (String × Value)) →
    Reading (Bool × Value)
  | 0, _, _ => throw .outOfFuel
  | fuel + 1, name, members => do
    let tokenName ← skipCommentTokens
    if tokenName.type = .tokenObjectEnd ∧ name = [] then return (true, .objectValue members)
    if tokenName.type ≠ .tokenString then
      return (← addErrorAndRecover "Missing '\x7d' or object member name" tokenName .tokenObjectEnd,
        .objectValue members)
    match ← decodeStringInto tokenName with
    | none => return (← recoverFromError .tokenObjectEnd, .objectValue members)
    | some name =>
      let colon ← readToken
      if colon.type ≠ .tokenMemberSeparator then
        return (← addErrorAndRecover "Missing ':' after object member name" colon .tokenObjectEnd,
          .objectValue members)
      let old := (Value.lookup (cString name) members).getD .nullValue
      let (ok, value) ← readValue fuel old
      let members := Value.updateMembers (cString name) (fun _ => value) members
      if !ok then return (← recoverFromError .tokenObjectEnd, .objectValue members)
      let comma ← readToken
      if comma.type ≠ .tokenObjectEnd ∧ comma.type ≠ .tokenArraySeparator ∧
          comma.type ≠ .tokenComment then
        return (← addErrorAndRecover "Missing ',' or '\x7d' in object declaration" comma
          .tokenObjectEnd, .objectValue members)
      let comma ← skipCommentsFrom comma
      if comma.type = .tokenObjectEnd then return (true, .objectValue members)
      readObjectLoop fuel name members

/-- The loop of `readArray`; its index is the number of elements read. -/
def readArrayLoop : (fuel : Nat) → (elements : List Value) → Reading (Bool × Value)
  | 0, _ => throw .outOfFuel
  | fuel + 1, elements => do
    let (ok, value) ← readValue fuel .nullValue
    let elements := elements ++ [value]
    if !ok then return (← recoverFromError .tokenArrayEnd, .arrayValue elements)
    let token ← readToken
    if token.type ≠ .tokenArraySeparator ∧ token.type ≠ .tokenArrayEnd then
      return (← addErrorAndRecover "Missing ',' or ']' in array declaration" token .tokenArrayEnd,
        .arrayValue elements)
    if token.type = .tokenArrayEnd then return (true, .arrayValue elements)
    readArrayLoop fuel elements

end

/-- The comments behind the root, like those before a value, are stored with it. -/
def readDocument (fuel : Nat) (root : Value) : Reading (Bool × Value) := do
  let (successful, root) ← readValue double fuel root
  let _ ← skipCommentTokens
  takeCommentsBefore
  return (successful, root)

/-- `Reader::parse`: whether it succeeded, the root and the errors. -/
def parse (document : List Char) (root : Value) (collectComments : Bool) :
    Except ReaderFault (Bool × Value × List ErrorInfo) := do
  let start : Reader :=
    { errors := [], document, current := document, lastValueEnd := none, lastValue := false,
      commentsBefore := [], collectComments }
  let ((successful, root), r) ← readDocument double (2 * document.length + 1) root start
  return (successful, root, r.errors)

end values
end Reader

/-- `JsonValue::parse` on a new JsonValue; no value when it returns false, nor when
the reader faults. -/
def JsonValue.parse (double : Rat → Rat) (buf : List UInt8) : Option Value :=
  match Reader.parse double (buf.map Char.ofUInt8) .nullValue true with
  | .ok (true, jvalue, _) => some jvalue
  | _ => none

end AsyncPing
