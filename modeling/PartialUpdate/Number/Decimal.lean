import PartialUpdate.Number.Double

/-!
Decimal numbers and doubles. Reading takes the double nearest to a decimal number. Writing
takes the shortest decimal number that reads back, of two such the nearer one, and lays its
digits out by a style.
-/

set_option autoImplicit false

namespace PartialUpdate

-- Powers mean the same whatever else is imported.
attribute [local instance (2000)] instPowNat

/-- The number `digits * 10 ^ exponent`. -/
structure Decimal where
  digits : Nat
  exponent : Int
  deriving DecidableEq

namespace Decimal

def digitChars (n : Nat) : List Char := Nat.toDigits 10 n

def numerator (d : Decimal) : Nat := d.digits * 10 ^ d.exponent.toNat

def denominator (d : Decimal) : Nat := 10 ^ (-d.exponent).toNat

/-- The number of places left of the point in scientific order of magnitude: the decimal
number is less than ten to this power and, unless zero, at least a tenth of it. -/
def magnitude (d : Decimal) : Int := (digitChars d.digits).length + d.exponent

end Decimal

namespace Double

/-- Decimal magnitudes from here on are past the finite doubles. -/
def overflowMagnitude : Int := 311

/-- Decimal magnitudes up to here are less than half the least positive double. -/
def underflowMagnitude : Int := -324

/-- The double nearest to a decimal number, with a sign. Far out of range the answer is
known without forming the power of ten. -/
def ofDecimal (negative : Bool) (d : Decimal) : Double :=
  if d.digits = 0 ∨ d.magnitude ≤ underflowMagnitude then ofRank negative 0
  else if overflowMagnitude ≤ d.magnitude then infinite negative
  else nearest negative d.numerator d.denominator

/-- The greatest `e` with `10 ^ e ≤ a / b`, for positive `a` and `b`. -/
def decimalExponent (a b : Nat) : Int :=
  if b ≤ a then (Decimal.digitChars (a / b)).length - 1
  else -((Decimal.digitChars ((b - 1) / a)).length : Int)

def readsAs (rank : Nat) (d : Decimal) : Bool := ofDecimal false d == ofRank false rank

/-- A decimal number with the given exponent that reads as the rank: the nearer of the two
neighbours on that grid first. -/
def onGrid? (rank : Nat) (exponent : Int) : Option Decimal :=
  let a := units rank * 10 ^ (-exponent).toNat
  let b := unitsInOne * 10 ^ exponent.toNat
  [roundHalfEven a b, a / b, a / b + 1].map (⟨·, exponent⟩) |>.find? (readsAs rank)

def exactDecimal (rank : Nat) : Decimal :=
  ⟨units rank * 5 ^ leastExponent, -leastExponent⟩

/-- The decimal number with the fewest digits that reads as the rank. Seventeen digits
always suffice; the exact digits stand last so that the result reads back by construction. -/
def shortest (rank : Nat) : Decimal :=
  if rank = 0 then ⟨0, 0⟩
  else
    let first := decimalExponent (units rank) unitsInOne
    ((List.range 17).findSome? fun (less : Nat) => onGrid? rank (first - less)).getD
      (exactDecimal rank)

end Double

/-- How a double is laid out. Decimal exponents from `positionalFrom` up to, but not
including, `positionalBelow` are written without an exponent. -/
structure NumberStyle where
  positionalFrom : Int
  positionalBelow : Int
  exponentPlaces : Nat
  infinity : String
  notANumber : String

namespace NumberStyle

def significant (digits : List Char) : List Char :=
  match (digits.reverse.dropWhile (· == '0')).reverse with
  | [] => ['0']
  | kept => kept

def exponentText (style : NumberStyle) (exponent : Int) : List Char :=
  let digits := Decimal.digitChars exponent.natAbs
  (if exponent < 0 then '-' else '+') ::
    (List.replicate (style.exponentPlaces - digits.length) '0' ++ digits)

def decimalText (style : NumberStyle) (d : Decimal) : List Char :=
  let all := Decimal.digitChars d.digits
  let exponent := d.exponent + all.length - 1
  let digits := significant all
  if style.positionalFrom ≤ exponent ∧ exponent < style.positionalBelow then
    if exponent < 0 then
      '0' :: '.' :: (List.replicate (-exponent - 1).toNat '0' ++ digits)
    else
      let whole := exponent.toNat + 1
      if digits.length ≤ whole then
        digits ++ List.replicate (whole - digits.length) '0' ++ ['.', '0']
      else digits.take whole ++ '.' :: digits.drop whole
  else
    let mantissa := match digits with
      | [single] => [single]
      | lead :: rest => lead :: '.' :: rest
      | [] => ['0']
    mantissa ++ 'e' :: style.exponentText exponent

def text (style : NumberStyle) : Double → List Char
  | .finite negative rank =>
    let magnitude := style.decimalText (Double.shortest rank.val)
    if negative then '-' :: magnitude else magnitude
  | .infinite negative =>
    if negative then '-' :: style.infinity.toList else style.infinity.toList
  | .nan => style.notANumber.toList

end NumberStyle
end PartialUpdate
