import PartialUpdate.Number.Integer

/-!
Words of a command line as arguments. Long options may be shortened as long as one option is
meant, and may have their values after an equality sign; two dashes there stand for no value.
After a word of two dashes all words are plain.
-/

set_option autoImplicit false

namespace PartialUpdate.CommandLine

inductive OptionKind where
  | help
  | switch
  | text
  | integer
  deriving DecidableEq

structure OptionForm where
  name : String
  kind : OptionKind

/-- The arguments of a command: at most one plain one, which is required, and options. -/
structure Usage where
  plain : Option String
  options : List OptionForm
  required : List String

inductive Refusal where
  | help
  | misuse
  deriving DecidableEq

inductive ArgumentValue where
  | switch
  | text (value : String)
  | integer (value : Int)
  | nothing

structure Arguments where
  plain : Option String
  given : List (String × ArgumentValue)
  surplus : Bool

/-- A word by its part in the command line. A short help option may have more characters in its
word, right after its letter or after an equality sign. -/
inductive Word where
  | plain (text : String)
  | dashes
  | option (form : OptionForm) (value : Option String)
  | shortHelp (more : List Char)
  | unknown

namespace Usage

def allOptions (usage : Usage) : List OptionForm :=
  ⟨"-h", .help⟩ :: ⟨"--help", .help⟩ :: usage.options

end Usage

def splitValue (word : List Char) : List Char × Option String :=
  match word.dropWhile (· != '=') with
  | [] => (word, none)
  | _ :: value => (word.takeWhile (· != '='), some (String.ofList value))

def isDigit (c : Char) : Bool := c.isDigit || (Text.digitValue? c).isSome

def isNegativeNumber (word : List Char) : Bool :=
  match word with
  | '-' :: body =>
    let text := if body.getLast? = some '\n' then body.dropLast else body
    match text.dropWhile isDigit with
    | [] => !text.isEmpty
    | '.' :: places => !places.isEmpty && places.all isDigit
    | _ => false
  | _ => false

def classifyOther (usage : Usage) (word : List Char) : Except Refusal Word :=
  let (name, value) := splitValue word
  let candidates := match word with
    | '-' :: '-' :: _ => usage.allOptions.filter fun form => name.isPrefixOf form.name.toList
    | _ => []
  match candidates, word with
  | [form], _ => .ok (.option form value)
  | _ :: _ :: _, _ => .error .misuse
  | [], '-' :: 'h' :: more => .ok (.shortHelp more)
  | [], _ =>
    if isNegativeNumber word || word.contains ' ' then .ok (.plain (String.ofList word))
    else .ok .unknown

/-- The part of a word before any pair of dashes. -/
def classify (usage : Usage) (word : List Char) : Except Refusal Word :=
  let find (name : List Char) := usage.allOptions.find? fun form => form.name.toList == name
  match word with
  | '-' :: _ :: _ => match find word with
    | some form => .ok (.option form none)
    | none =>
      let (name, value) := splitValue word
      match value, find name with
      | some value, some form =>
        if name = ['-', 'h'] then .ok (.shortHelp value.toList) else .ok (.option form (some value))
      | _, _ => classifyOther usage word
  | _ => .ok (.plain (String.ofList word))

def classifyAll (usage : Usage) : List String → Except Refusal (List Word)
  | [] => .ok []
  | word :: rest =>
    if word = "--" then .ok (.dashes :: rest.map .plain)
    else do
      let found ← classify usage word.toList
      let others ← classifyAll usage rest
      return found :: others

/-- Whether the characters in the word of a short help option are in order: they repeat it. -/
def allowsHelp (more : List Char) : Bool := !more.isEmpty && more.all (· == 'h')

def optionValue (kind : OptionKind) (text : String) : Except Refusal ArgumentValue :=
  match kind with
  | .text => .ok (.text text)
  | .integer => match Integer.ofText? text with
    | some n => .ok (.integer n)
    | none => .error .misuse
  | _ => .error .misuse

def joinedValue (kind : OptionKind) (text : String) : Except Refusal ArgumentValue :=
  match kind, text with
  | .text, "--" => .ok .nothing
  | .integer, "--" => .ok .nothing
  | kind, text => optionValue kind text

namespace Arguments

def empty : Arguments := ⟨none, [], false⟩

def add (found : Arguments) (form : OptionForm) (value : ArgumentValue) : Arguments :=
  { found with given := found.given ++ [(form.name, value)] }

def last? (found : Arguments) (name : String) : Option ArgumentValue :=
  ((found.given.filter fun entry => decide (entry.1 = name)).getLast?).map (·.2)

def has (found : Arguments) (name : String) : Bool := (found.last? name).isSome

def text? (found : Arguments) (name : String) : Option String :=
  match found.last? name with
  | some (.text value) => some value
  | _ => none

/-- The number of an option that is given; no value counts as zero. -/
def integer? (found : Arguments) (name : String) : Option Int :=
  match found.last? name with
  | some (.integer value) => some value
  | some .nothing => some 0
  | _ => none

end Arguments

/-- Takes words in order. The plain argument may have dashes before or after it. -/
def take (usage : Usage) : Arguments → List Word → Except Refusal Arguments
  | found, [] => .ok found
  | found, .unknown :: rest => take usage { found with surplus := true } rest
  | _, .shortHelp more :: _ => .error (if allowsHelp more then .help else .misuse)
  | found, .option form (some text) :: rest => do
    take usage (found.add form (← joinedValue form.kind text)) rest
  | found, .option form none :: .plain text :: rest =>
    match form.kind with
    | .help => .error .help
    | .switch => take usage (found.add form .switch) (.plain text :: rest)
    | kind => do take usage (found.add form (← optionValue kind text)) rest
  | found, .option form none :: rest =>
    match form.kind with
    | .help => .error .help
    | .switch => take usage (found.add form .switch) rest
    | _ => .error .misuse
  | found, .dashes :: .plain text :: rest =>
    if usage.plain.isSome && found.plain.isNone then
      take usage { found with plain := some text } rest
    else take usage { found with surplus := true } (.plain text :: rest)
  | found, .dashes :: rest => take usage { found with surplus := true } rest
  | found, .plain text :: .dashes :: rest =>
    if usage.plain.isSome && found.plain.isNone then
      take usage { found with plain := some text } rest
    else take usage { found with surplus := true } (.dashes :: rest)
  | found, .plain text :: rest =>
    if usage.plain.isSome && found.plain.isNone then
      take usage { found with plain := some text } rest
    else take usage { found with surplus := true } rest
  termination_by _ words => words.length

def Usage.parse (usage : Usage) (words : List String) : Except Refusal Arguments := do
  let found ← take usage .empty (← classifyAll usage words)
  if found.surplus || (usage.plain.isSome && found.plain.isNone) ||
      usage.required.any (fun name => !found.has name) then throw .misuse
  return found

end PartialUpdate.CommandLine
