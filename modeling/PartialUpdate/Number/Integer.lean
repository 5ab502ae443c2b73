import PartialUpdate.Text.Blank
import PartialUpdate.Text.Digit

/-!
Integers written as text. Digits may be grouped by single underscores.
-/

set_option autoImplicit false

namespace PartialUpdate.Integer

/-- The digits of a nonempty digit sequence in which single underscores may stand between
digits. -/
def groupedDigits? : List Char → Option (List Char)
  | [] => none
  | [c] => if c.isDigit then some [c] else none
  | c :: '_' :: rest => if c.isDigit then (groupedDigits? rest).map (c :: ·) else none
  | c :: rest => if c.isDigit then (groupedDigits? rest).map (c :: ·) else none

def ofDigits (negative : Bool) (digits : List Char) : Int :=
  let size : Int := Nat.ofDigitChars 10 digits 0
  if negative then -size else size

def splitSign : List Char → Bool × List Char
  | '-' :: rest => (true, rest)
  | '+' :: rest => (false, rest)
  | cs => (false, cs)

/-- Digits of every script as ASCII digits and blanks past ASCII as spaces. -/
def asciiForm (c : Char) : Char :=
  if c.toNat < 0x7f then c
  else if Text.isBlank c then ' '
  else match Text.digitValue? c with
    | some value => Nat.digitChar value
    | none => '?'

/-- Blanks around an integer: the space and the controls from the tab to the carriage return. -/
def isPadding (c : Char) : Bool := c == ' ' || (9 ≤ c.toNat && c.toNat ≤ 13)

/-- Reads an integer in any script: padding, a sign, digits. -/
def ofText? (text : String) : Option Int :=
  let padded := (text.toList.map asciiForm).dropWhile isPadding
  let (negative, body) := splitSign (padded.reverse.dropWhile isPadding).reverse
  (groupedDigits? body).map (ofDigits negative)

/-- Blanks around a size: the separators of Unicode and the controls of ASCII padding. -/
def isSizePadding (c : Char) : Bool := Text.isBlank c && !(0x1c ≤ c.toNat && c.toNat ≤ 0x1f)

def isLeading (c : Char) : Bool := c == '0' || c == '_'

/-- A size without its sign and the zeros in front, and whether a minus stands after the zeros.
One zero stays if no digits follow. -/
def afterZeros? : List Char → Option (Bool × List Char)
  | '0' :: rest =>
    let leading := '0' :: rest.takeWhile isLeading
    match rest.dropWhile isLeading with
    | '-' :: '_' :: number => some (true, number)
    | '-' :: number => some (true, number)
    | c :: number =>
      if c != '.' then some (false, c :: number)
      else if leading.getLast? == some '0' then some (false, '0' :: c :: number)
      else none
    | [] => if leading.getLast? == some '0' then some (false, ['0']) else none
  | body => some (false, body)

def isZeroFraction : List Char → Bool
  | [] => true
  | '.' :: places => !places.isEmpty && places.all (· == '0')
  | _ => false

/-- Reads a size: padding, a sign, ASCII digits, and possibly a fraction of zeros. The digits may
have zeros in front, after the sign or, without a minus before them, before a minus. -/
def ofSizeText? (text : String) : Option Int := do
  let padded := text.toList.dropWhile isSizePadding
  let (negative, body) := splitSign (padded.reverse.dropWhile isSizePadding).reverse
  let (turned, number) ← afterZeros? body
  let digits ← groupedDigits? (number.takeWhile (· != '.'))
  let plain := digits.length == 1 || digits.head? != some '0'
  if isZeroFraction (number.dropWhile (· != '.')) && plain && !(negative && turned) then
    return ofDigits (negative || turned) digits
  else none

end PartialUpdate.Integer
