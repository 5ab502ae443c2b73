import PartialUpdate.Config.Value
import PartialUpdate.Json.Read

/-!
Numbers, dates and times of TOML. Digits of numbers may be grouped by single underscores.
-/

set_option autoImplicit false

namespace PartialUpdate.Toml

/-- Digits of a kind, single underscores between them left out, and what follows them. -/
def moreDigits (isDigit : Char → Bool) : List Char → List Char × List Char
  | '_' :: c :: rest =>
    if isDigit c then
      let (digits, after) := moreDigits isDigit rest
      (c :: digits, after)
    else ([], '_' :: c :: rest)
  | c :: rest =>
    if isDigit c then
      let (digits, after) := moreDigits isDigit rest
      (c :: digits, after)
    else ([], c :: rest)
  | [] => ([], [])

def digits? (isDigit : Char → Bool) : List Char → Option (List Char × List Char)
  | c :: rest =>
    if isDigit c then
      let (digits, after) := moreDigits isDigit rest
      some (c :: digits, after)
    else none
  | [] => none

def inBase (base : Nat) (isDigit : Char → Bool) (cs : List Char) :
    Option (Config.Value × List Char) := do
  let (digits, rest) ← digits? isDigit cs
  let size := digits.foldl (fun n c => n * base + (Json.hexValue? c).getD 0) 0
  return (.int size, rest)

def whole? : List Char → Option (List Char × List Char)
  | '0' :: rest => some (['0'], rest)
  | cs => digits? Char.isDigit cs

def fraction? : List Char → Option (List Char × List Char)
  | '.' :: rest => digits? Char.isDigit rest
  | _ => none

def sign : List Char → Bool × List Char
  | '-' :: rest => (true, rest)
  | '+' :: rest => (false, rest)
  | cs => (false, cs)

def exponent? (cs : List Char) : Option (Int × List Char) :=
  match cs with
  | [] => none
  | e :: rest =>
    if e == 'e' || e == 'E' then do
      let (negative, rest) := sign rest
      let (digits, after) ← digits? Char.isDigit rest
      let size : Int := Json.natOfDigits digits
      return (if negative then -size else size, after)
    else none

def decimal? (cs : List Char) : Option (Config.Value × List Char) := do
  let (negative, rest) := sign cs
  let (whole, rest) ← whole? rest
  let fraction := fraction? rest
  let (places, rest) := fraction.getD ([], rest)
  let exponent := exponent? rest
  let (scale, rest) := exponent.getD (0, rest)
  if fraction.isSome || exponent.isSome then
    let found : Decimal := ⟨Json.natOfDigits (whole ++ places), scale - places.length⟩
    return (.float (Double.ofDecimal negative found), rest)
  else
    let size : Int := Json.natOfDigits whole
    return (.int (if negative then -size else size), rest)

def isBinary (c : Char) : Bool := c == '0' || c == '1'

def isOctal (c : Char) : Bool := '0' ≤ c && c ≤ '7'

def isHex (c : Char) : Bool := (Json.hexValue? c).isSome

def based? : List Char → Option (Config.Value × List Char)
  | '0' :: 'x' :: rest => inBase 16 isHex rest
  | '0' :: 'b' :: rest => inBase 2 isBinary rest
  | '0' :: 'o' :: rest => inBase 8 isOctal rest
  | _ => none

def special? (cs : List Char) : Option (Config.Value × List Char) :=
  match sign cs with
  | (negative, 'i' :: 'n' :: 'f' :: rest) => some (.float (.infinite negative), rest)
  | (_, 'n' :: 'a' :: 'n' :: rest) => some (.float .nan, rest)
  | _ => none

def number? (cs : List Char) : Option (Config.Value × List Char) :=
  based? cs <|> decimal? cs <|> special? cs

def fixedDigits (places : Nat) (cs : List Char) : Option (Nat × List Char) :=
  let digits := cs.take places
  if digits.length = places ∧ digits.all Char.isDigit then
    some (Json.natOfDigits digits, cs.drop places)
  else none

def twoDigits (low high : Nat) (cs : List Char) : Option (Nat × List Char) := do
  let (n, rest) ← fixedDigits 2 cs
  if low ≤ n ∧ n ≤ high then return (n, rest) else none

def skipChar (c : Char) : List Char → Option (List Char)
  | first :: rest => if first = c then some rest else none
  | [] => none

/-- The fraction of a second in microseconds; further digits are dropped. -/
def microseconds (cs : List Char) : Nat × List Char :=
  match cs with
  | '.' :: rest =>
    let digits := rest.takeWhile Char.isDigit
    if digits.isEmpty then (0, cs)
    else
      (Json.natOfDigits ((digits ++ List.replicate 6 '0').take 6), rest.dropWhile Char.isDigit)
  | _ => (0, cs)

def time? (cs : List Char) : Option (Time × List Char) := do
  let (hour, rest) ← twoDigits 0 23 cs
  let (minute, rest) ← twoDigits 0 59 (← skipChar ':' rest)
  let (second, rest) ← twoDigits 0 59 (← skipChar ':' rest)
  let (fraction, rest) := microseconds rest
  return (⟨hour, minute, second, fraction⟩, rest)

/-- A date as far as its form goes. -/
def date? (cs : List Char) : Option (Date × List Char) := do
  let (year, rest) ← fixedDigits 4 cs
  let (month, rest) ← twoDigits 1 12 (← skipChar '-' rest)
  let (day, rest) ← twoDigits 1 31 (← skipChar '-' rest)
  return (⟨year, month, day⟩, rest)

def offset? (cs : List Char) : Option (Int × List Char) :=
  match cs with
  | 'Z' :: rest => some (0, rest)
  | 'z' :: rest => some (0, rest)
  | '+' :: rest => size rest
  | '-' :: rest => do
    let (minutes, after) ← size rest
    return (-minutes, after)
  | _ => none
where
  size (cs : List Char) : Option (Int × List Char) := do
    let (hour, rest) ← twoDigits 0 23 cs
    let (minute, rest) ← twoDigits 0 59 (← skipChar ':' rest)
    return (Int.ofNat (hour * 60 + minute), rest)

def timeAfterDate? : List Char → Option (Time × List Char)
  | c :: rest => if c == 'T' || c == 't' || c == ' ' then time? rest else none
  | [] => none

def moment (date : Date) (rest : List Char) : Moment × List Char :=
  match timeAfterDate? rest with
  | none => (.date date, rest)
  | some (time, rest) => match offset? rest with
    | none => (.both date time none, rest)
    | some (offset, rest) => (.both date time (some offset), rest)

/-- A number or a moment. What looks like a date must be one. -/
def quantity? (cs : List Char) : Option (Config.Value × List Char) :=
  match date? cs with
  | some (date, rest) =>
    if date.isValid then
      let (moment, rest) := moment date rest
      some (.moment moment, rest)
    else none
  | none => match time? cs with
    | some (time, rest) => some (.moment (.time time), rest)
    | none => number? cs

end PartialUpdate.Toml
