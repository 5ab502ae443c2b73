import PartialUpdate.Json.Basic

/-!
Reading of JSON text. Beside the standard the words NaN, Infinity and -Infinity are numbers.
Blanks are the space, the tab, the carriage return and the line feed. Integers are unbounded,
and numbers with a fraction or an exponent are doubles. A fault names the place where reading
stopped, counted in characters.

Texts are sequences of Unicode scalar values. The program keeps the escape of a surrogate that is
no half of a pair as it is; here it stands for the replacement character U+FFFD.
-/

set_option autoImplicit false

namespace PartialUpdate.Json

inductive Problem where
  | valueExpected
  | keyExpected
  | colonExpected
  | commaExpected
  | extraData
  | unterminatedString
  | controlCharacter
  | badEscape
  | badUnicodeEscape
  | byteOrderMark
  deriving DecidableEq

def Problem.text : Problem → String
  | valueExpected => "Expecting value"
  | keyExpected => "Expecting property name enclosed in double quotes"
  | colonExpected => "Expecting ':' delimiter"
  | commaExpected => "Expecting ',' delimiter"
  | extraData => "Extra data"
  | unterminatedString => "Unterminated string starting at"
  | controlCharacter => "Invalid control character at"
  | badEscape => "Invalid \\escape"
  | badUnicodeEscape => "Invalid \\uXXXX escape"
  | byteOrderMark => "Unexpected UTF-8 BOM (decode using utf-8-sig)"

/-- A problem and the text from its place on. -/
structure Fault where
  problem : Problem
  rest : List Char

structure SyntaxError where
  problem : Problem
  line : Nat
  column : Nat
  offset : Nat
  deriving DecidableEq

def SyntaxError.message (e : SyntaxError) : String :=
  s!"{e.problem.text}: line {e.line} column {e.column} (char {e.offset})"

/-- Locates a fault; only a line feed ends a line. -/
def Fault.locate (fault : Fault) (text : List Char) : SyntaxError :=
  let offset := text.length - fault.rest.length
  let before := text.take offset
  { problem := fault.problem
    line := before.count '\n' + 1
    column := (before.reverse.takeWhile (· != '\n')).length + 1
    offset := offset }

def isSpace (c : Char) : Bool := c == ' ' || c == '\t' || c == '\n' || c == '\r'

def skipSpace (cs : List Char) : List Char := cs.dropWhile isSpace

def hexValue? (c : Char) : Option Nat :=
  if '0' ≤ c && c ≤ '9' then some (c.toNat - '0'.toNat)
  else if 'a' ≤ c && c ≤ 'f' then some (c.toNat - 'a'.toNat + 10)
  else if 'A' ≤ c && c ≤ 'F' then some (c.toNat - 'A'.toNat + 10)
  else none

def codeUnit? (a b c d : Char) : Option Nat := do
  let a ← hexValue? a
  let b ← hexValue? b
  let c ← hexValue? c
  let d ← hexValue? d
  return ((a * 16 + b) * 16 + c) * 16 + d

def isHighSurrogate (unit : Nat) : Bool := 0xd800 ≤ unit && unit < 0xdc00

def isLowSurrogate (unit : Nat) : Bool := 0xdc00 ≤ unit && unit < 0xe000

/-- The character of a code unit; a surrogate alone has none. -/
def unitChar (unit : Nat) : Char :=
  if 0xd800 ≤ unit && unit < 0xe000 then '\ufffd' else Char.ofNat unit

def pairChar (high low : Nat) : Char :=
  Char.ofNat (0x10000 + (high - 0xd800) * 0x400 + (low - 0xdc00))

def escapeChar? : Char → Option Char
  | '"' => some '"'
  | '\\' => some '\\'
  | '/' => some '/'
  | 'b' => some '\x08'
  | 'f' => some '\x0c'
  | 'n' => some '\n'
  | 'r' => some '\r'
  | 't' => some '\t'
  | _ => none

/-- The four digits of a unicode escape, which may not end the text, and what follows them. -/
def readUnit (cs : List Char) : Except Fault (Nat × List Char) :=
  match cs with
  | a :: b :: c :: d :: next :: rest =>
    match codeUnit? a b c d with
    | some unit => .ok (unit, next :: rest)
    | none => .error ⟨.badUnicodeEscape, 'u' :: cs⟩
  | _ => .error ⟨.badUnicodeEscape, 'u' :: cs⟩

/-- The second half of a surrogate pair, if the text goes on with one. -/
def readLow (cs : List Char) : Except Fault (Option (Nat × List Char)) :=
  match cs with
  | '\\' :: 'u' :: rest =>
    if (rest.take 5).length < 5 then .ok none
    else do
      let (unit, after) ← readUnit rest
      return if isLowSurrogate unit then some (unit, after) else none
  | _ => .ok none

def readUnicode (cs : List Char) : Except Fault (Char × List Char) := do
  let (unit, rest) ← readUnit cs
  if isHighSurrogate unit then
    match ← readLow rest with
    | some (low, after) => return (pairChar unit low, after)
    | none => return (unitChar unit, rest)
  else return (unitChar unit, rest)

/-- The characters of a string after its opening quote, and what follows its closing one. The
text from the opening quote on is at hand for the fault of a string that does not end. Each
step takes a character, so the length of the text bounds the steps. -/
def readChars (opening : List Char) : Nat → List Char → Except Fault (List Char × List Char)
  | 0, _ => .error ⟨.unterminatedString, opening⟩
  | _ + 1, [] => .error ⟨.unterminatedString, opening⟩
  | _ + 1, '"' :: rest => .ok ([], rest)
  | _ + 1, ['\\'] => .error ⟨.unterminatedString, opening⟩
  | steps + 1, '\\' :: 'u' :: rest => do
    let (c, rest) ← readUnicode rest
    let (cs, rest) ← readChars opening steps rest
    return (c :: cs, rest)
  | steps + 1, '\\' :: e :: rest =>
    match escapeChar? e with
    | some c => do
      let (cs, rest) ← readChars opening steps rest
      return (c :: cs, rest)
    | none => .error ⟨.badEscape, '\\' :: e :: rest⟩
  | steps + 1, c :: rest =>
    if c.toNat < 0x20 then .error ⟨.controlCharacter, c :: rest⟩
    else do
      let (cs, rest) ← readChars opening steps rest
      return (c :: cs, rest)

def readString (cs : List Char) : Except Fault (String × List Char) := do
  let (chars, rest) ← readChars ('"' :: cs) (cs.length + 1) cs
  return (String.ofList chars, rest)

def spanDigits (cs : List Char) : List Char × List Char :=
  (cs.takeWhile Char.isDigit, cs.dropWhile Char.isDigit)

def readFraction (cs : List Char) : Option (List Char × List Char) :=
  match cs with
  | '.' :: rest =>
    match spanDigits rest with
    | ([], _) => none
    | (digits, after) => some (digits, after)
  | _ => none

def natOfDigits (digits : List Char) : Nat := Nat.ofDigitChars 10 digits 0

def readExponent (cs : List Char) : Option (Int × List Char) :=
  match cs with
  | [] => none
  | e :: rest =>
    if e == 'e' || e == 'E' then
      let (negative, rest) : Bool × List Char := match rest with
        | '-' :: after => (true, after)
        | '+' :: after => (false, after)
        | other => (false, other)
      match spanDigits rest with
      | ([], _) => none
      | (digits, after) =>
        let size : Int := natOfDigits digits
        some (if negative then -size else size, after)
    else none

def readWhole (cs : List Char) : Option (List Char × List Char) :=
  match cs with
  | '0' :: rest => some (['0'], rest)
  | c :: _ => if c.isDigit then some (spanDigits cs) else none
  | [] => none

def readMagnitude (negative : Bool) (cs : List Char) : Option (Json × List Char) := do
  let (whole, rest) ← readWhole cs
  let fraction := readFraction rest
  let (places, rest) := fraction.getD ([], rest)
  let exponent := readExponent rest
  let (scale, rest) := exponent.getD (0, rest)
  if fraction.isSome || exponent.isSome then
    let decimal : Decimal := ⟨natOfDigits (whole ++ places), scale - places.length⟩
    return (float (Double.ofDecimal negative decimal), rest)
  else
    let size : Int := natOfDigits whole
    return (int (if negative then -size else size), rest)

def readScalar (cs : List Char) : Except Fault (Json × List Char) :=
  match cs with
  | 'n' :: 'u' :: 'l' :: 'l' :: rest => .ok (null, rest)
  | 't' :: 'r' :: 'u' :: 'e' :: rest => .ok (bool true, rest)
  | 'f' :: 'a' :: 'l' :: 's' :: 'e' :: rest => .ok (bool false, rest)
  | 'N' :: 'a' :: 'N' :: rest => .ok (float .nan, rest)
  | 'I' :: 'n' :: 'f' :: 'i' :: 'n' :: 'i' :: 't' :: 'y' :: rest =>
    .ok (float (.infinite false), rest)
  | '-' :: 'I' :: 'n' :: 'f' :: 'i' :: 'n' :: 'i' :: 't' :: 'y' :: rest =>
    .ok (float (.infinite true), rest)
  | '-' :: rest => match readMagnitude true rest with
    | some found => .ok found
    | none => .error ⟨.valueExpected, cs⟩
  | _ => match readMagnitude false cs with
    | some found => .ok found
    | none => .error ⟨.valueExpected, cs⟩

mutual

/-- A value at the front of the text and what follows it. The number bounds the nesting; twice
the length of the text is always enough. -/
def readValue : Nat → List Char → Except Fault (Json × List Char)
  | 0, cs => .error ⟨.valueExpected, cs⟩
  | _ + 1, '"' :: rest => do
    let (s, rest) ← readString rest
    return (string s, rest)
  | depth + 1, '[' :: rest =>
    match skipSpace rest with
    | ']' :: after => .ok (array [], after)
    | inside => do
      let (items, rest) ← readItems depth inside
      return (array items, rest)
  | depth + 1, '\x7b' :: rest =>
    match skipSpace rest with
    | '\x7d' :: after => .ok (object [], after)
    | inside => do
      let (pairs, rest) ← readPairs depth inside
      return (object (ofPairs pairs), rest)
  | _ + 1, cs => readScalar cs

def readItems : Nat → List Char → Except Fault (List Json × List Char)
  | 0, cs => .error ⟨.valueExpected, cs⟩
  | depth + 1, cs => do
    let (value, rest) ← readValue depth cs
    match skipSpace rest with
    | ']' :: after => return ([value], after)
    | ',' :: more =>
      let (items, after) ← readItems depth (skipSpace more)
      return (value :: items, after)
    | other => throw ⟨.commaExpected, other⟩

def readPairs : Nat → List Char → Except Fault (List (String × Json) × List Char)
  | 0, cs => .error ⟨.valueExpected, cs⟩
  | depth + 1, '"' :: cs => do
    let (key, rest) ← readString cs
    match skipSpace rest with
    | ':' :: more =>
      let (value, rest) ← readValue depth (skipSpace more)
      match skipSpace rest with
      | '\x7d' :: after => return ([(key, value)], after)
      | ',' :: more =>
        let (pairs, after) ← readPairs depth (skipSpace more)
        return ((key, value) :: pairs, after)
      | other => throw ⟨.commaExpected, other⟩
    | other => throw ⟨.colonExpected, other⟩
  | _ + 1, cs => .error ⟨.keyExpected, cs⟩

end

def readDocument (cs : List Char) : Except Fault Json :=
  match cs with
  | '\ufeff' :: _ => .error ⟨.byteOrderMark, cs⟩
  | _ => do
    let (value, rest) ← readValue (2 * cs.length + 2) (skipSpace cs)
    match skipSpace rest with
    | [] => return value
    | other => throw ⟨.extraData, other⟩

def parse (text : String) : Except SyntaxError Json :=
  let cs := text.toList
  match readDocument cs with
  | .ok value => .ok value
  | .error fault => .error (fault.locate cs)

end PartialUpdate.Json
