import PartialUpdate.Text.Printable

/-!
Quoted text in messages. The quotes are single unless the text holds a single quote and no
double one. Backslashes, the quote and invisible characters are escaped.
-/

set_option autoImplicit false

namespace PartialUpdate.Text

-- Powers mean the same whatever else is imported.
attribute [local instance (2000)] instPowNat

def hexDigit (n : Nat) : Char := Nat.digitChar (n % 16)

def hexDigits (places n : Nat) : List Char :=
  (List.range places).reverse.map fun place => hexDigit (n / 16 ^ place)

def escaped (quote c : Char) : List Char :=
  if c == quote || c == '\\' then ['\\', c]
  else if c == '\n' then ['\\', 'n']
  else if c == '\r' then ['\\', 'r']
  else if c == '\t' then ['\\', 't']
  else if isPrintable c then [c]
  else if c.toNat < 0x100 then '\\' :: 'x' :: hexDigits 2 c.toNat
  else if c.toNat < 0x10000 then '\\' :: 'u' :: hexDigits 4 c.toNat
  else '\\' :: 'U' :: hexDigits 8 c.toNat

def quoteFor (cs : List Char) : Char :=
  if cs.contains '\'' && !cs.contains '"' then '"' else '\''

def quotedChars (cs : List Char) : List Char :=
  let quote := quoteFor cs
  quote :: (cs.flatMap (escaped quote) ++ [quote])

def quoted (s : String) : String := String.ofList (quotedChars s.toList)

end PartialUpdate.Text
