import PartialUpdate.Json.Read

/-!
Strings, keys and blanks of TOML. Control characters are no part of strings and comments, the
tab apart; strings over several lines also hold line feeds.
-/

set_option autoImplicit false

namespace PartialUpdate.Toml

def isSpace (c : Char) : Bool := c == ' ' || c == '\t'

def skipSpace (cs : List Char) : List Char := cs.dropWhile isSpace

def skipLines (cs : List Char) : List Char := cs.dropWhile fun c => isSpace c || c == '\n'

def isForbidden (c : Char) : Bool := (c.toNat < 0x20 && c != '\t') || c.toNat == 0x7f

def isForbiddenIn (several : Bool) (c : Char) : Bool := isForbidden c && !(several && c == '\n')

def skipComment : List Char → Option (List Char)
  | '#' :: rest =>
    if (rest.takeWhile (· != '\n')).any isForbidden then none
    else some (rest.dropWhile (· != '\n'))
  | cs => some cs

def skipBlanks : Nat → List Char → Option (List Char)
  | 0, cs => some cs
  | count + 1, cs => match skipLines cs with
    | '#' :: rest => do skipBlanks count (← skipComment ('#' :: rest))
    | other => some other

def literal : List Char → Option (List Char × List Char)
  | [] => none
  | '\'' :: rest => some ([], rest)
  | c :: rest =>
    if isForbidden c then none
    else do
      let (cs, after) ← literal rest
      return (c :: cs, after)

def literalLines : List Char → Option (List Char × List Char)
  | [] => none
  | '\'' :: '\'' :: '\'' :: rest => some ([], rest)
  | c :: rest =>
    if isForbiddenIn true c then none
    else do
      let (cs, after) ← literalLines rest
      return (c :: cs, after)

def escapeChar? : Char → Option Char
  | 'b' => some '\x08'
  | 't' => some '\t'
  | 'n' => some '\n'
  | 'f' => some '\x0c'
  | 'r' => some '\r'
  | '"' => some '"'
  | '\\' => some '\\'
  | _ => none

def codePoint (places : Nat) (cs : List Char) : Option (Char × List Char) := do
  let digits ← (cs.take places).mapM Json.hexValue?
  let code := digits.foldl (fun n digit => n * 16 + digit) 0
  if digits.length = places ∧ code.isValidChar then
    return (Char.ofNat code, cs.drop places)
  else none

/-- What follows a backslash at the end of a line: blanks, a line feed, and the blanks and line
feeds after it. At the end of the text the line feed may be missing. -/
def joinLine (cs : List Char) : Option (List Char) :=
  match skipSpace cs with
  | [] => some []
  | '\n' :: rest => some (skipLines rest)
  | _ => none

def escape (several : Bool) (cs : List Char) : Option (List Char × List Char) :=
  match cs with
  | [] => none
  | 'u' :: rest => do
    let (c, after) ← codePoint 4 rest
    return ([c], after)
  | 'U' :: rest => do
    let (c, after) ← codePoint 8 rest
    return ([c], after)
  | c :: rest =>
    if several && (isSpace c || c == '\n') then do return ([], ← joinLine cs)
    else do return ([← escapeChar? c], rest)

def basic (several : Bool) : Nat → List Char → Option (List Char × List Char)
  | 0, _ => none
  | _, [] => none
  | count + 1, '"' :: rest =>
    if !several then some ([], rest)
    else match rest with
      | '"' :: '"' :: after => some ([], after)
      | _ => do
        let (cs, after) ← basic several count rest
        return ('"' :: cs, after)
  | count + 1, '\\' :: rest => do
    let (chars, rest) ← escape several rest
    let (cs, after) ← basic several count rest
    return (chars ++ cs, after)
  | count + 1, c :: rest =>
    if isForbiddenIn several c then none
    else do
      let (cs, after) ← basic several count rest
      return (c :: cs, after)

/-- Up to two quotes before the three closing ones belong to the string. -/
def moreQuotes (quote : Char) (found : List Char × List Char) : List Char × List Char :=
  let extra := (found.2.take 2).takeWhile (· == quote)
  (found.1 ++ extra, found.2.drop extra.length)

/-- A string of several lines begins after a line feed that follows its opening quotes. -/
def dropLineFeed : List Char → List Char
  | '\n' :: rest => rest
  | cs => cs

def string? (cs : List Char) : Option (List Char × List Char) :=
  match cs with
  | '"' :: '"' :: '"' :: rest =>
    (basic true (rest.length + 1) (dropLineFeed rest)).map (moreQuotes '"')
  | '\'' :: '\'' :: '\'' :: rest => (literalLines (dropLineFeed rest)).map (moreQuotes '\'')
  | '"' :: rest => basic false (rest.length + 1) rest
  | '\'' :: rest => literal rest
  | _ => none

def isBareKeyChar (c : Char) : Bool := c.isAlphanum || c == '-' || c == '_'

def startsKey (c : Char) : Bool := isBareKeyChar c || c == '"' || c == '\''

/-- One part of a key, and what follows. Its string has one line. -/
def keyPart (cs : List Char) : Option (String × List Char) :=
  match cs with
  | '"' :: rest => do
    let (chars, after) ← basic false (rest.length + 1) rest
    return (String.ofList chars, after)
  | '\'' :: rest => do
    let (chars, after) ← literal rest
    return (String.ofList chars, after)
  | _ => match cs.takeWhile isBareKeyChar with
    | [] => none
    | chars => some (String.ofList chars, cs.dropWhile isBareKeyChar)

def keyParts : Nat → List Char → Option (List String × List Char)
  | 0, _ => none
  | count + 1, cs => do
    let (part, rest) ← keyPart cs
    match skipSpace rest with
    | '.' :: more =>
      let (parts, after) ← keyParts count (skipSpace more)
      return (part :: parts, after)
    | other => return ([part], other)

def key (cs : List Char) : Option (List String × List Char) := keyParts (cs.length + 1) cs

end PartialUpdate.Toml
