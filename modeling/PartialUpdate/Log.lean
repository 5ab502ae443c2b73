import PartialUpdate.Json.Display
import PartialUpdate.Text.Blank
import PartialUpdate.Text.Case

/-!
Log events. An event is written if its severity reaches the threshold of the log, and if its
logger is the one of the library or below it.
-/

set_option autoImplicit false

namespace PartialUpdate.Log

-- Sums mean the same whatever else is imported.
attribute [local instance (2000)] Zero.ofOfNat0

inductive Severity where
  | debug
  | info
  | warning
  | error
  | critical
  deriving DecidableEq

namespace Severity

def rank : Severity → Nat
  | debug => 10
  | info => 20
  | warning => 30
  | error => 40
  | critical => 50

def label : Severity → String
  | debug => "debug"
  | info => "info"
  | warning => "warning"
  | error => "error"
  | critical => "critical"

def ofWord? : String → Option Severity
  | "debug" => some debug
  | "info" => some info
  | "warning" => some warning
  | "warn" => some warning
  | "error" => some error
  | "exception" => some error
  | "critical" => some critical
  | "fatal" => some critical
  | _ => none

end Severity

structure Threshold where
  rank : Nat
  deriving DecidableEq

structure UnknownThreshold where
  name : String

def UnknownThreshold.message (error : UnknownThreshold) : String :=
  s!"unknown log level: {Text.quoted error.name}"

namespace Threshold

def ofCapitals? : String → Option Threshold
  | "CRITICAL" => some ⟨50⟩
  | "FATAL" => some ⟨50⟩
  | "ERROR" => some ⟨40⟩
  | "WARNING" => some ⟨30⟩
  | "WARN" => some ⟨30⟩
  | "INFO" => some ⟨20⟩
  | "DEBUG" => some ⟨10⟩
  | "NOTSET" => some ⟨0⟩
  | _ => none

def ofName (name : String) : Except UnknownThreshold Threshold :=
  match ofCapitals? (String.ofList (Text.capitals name.toList)) with
  | some threshold => .ok threshold
  | none => .error ⟨name⟩

/-- The rank that applies: without a threshold, warnings and worse are written. -/
def effectiveRank (threshold : Threshold) : Nat :=
  if threshold.rank = 0 then Severity.warning.rank else threshold.rank

end Threshold

structure Event where
  severity : Severity
  logger : String
  name : String
  fields : List (String × Json)

/-- The logger of the library; loggers below it have longer names with a dot. -/
def libraryLogger : String := "deltaschema"

namespace Event

def isLibrary (event : Event) : Bool :=
  event.logger == libraryLogger || (libraryLogger ++ ".").toList.isPrefixOf event.logger.toList

def passes (threshold : Threshold) (event : Event) : Bool :=
  event.isLibrary && decide (threshold.effectiveRank ≤ event.severity.rank)

def ownKeys : List String := ["event", "level", "logger"]

/-- The key of the time, which is the log's to set. -/
def timeKey : String := "timestamp"

/-- The entries of an event: its own, and its fields as far as they do not have the same names. -/
def entries (event : Event) : List (String × Json) :=
  Json.ofPairs ((event.fields.filter fun field => field.1 != timeKey) ++
    [("event", .string event.name), ("level", .string event.severity.label),
      ("logger", .string event.logger)])

def toJson (event : Event) : Json := .object event.entries

/-- A text as the value of a field in a plain line: texts with blanks, quotes or equality signs
are quoted. -/
def plainText (text : String) : List Char :=
  if text.toList.any fun c => [' ', '\t', '=', '\r', '\n', '"', '\''].contains c then
    Text.quotedChars text.toList
  else text.toList

def plainValue : Json → List Char
  | .string text => plainText text
  | value => value.displayChars

def padded (width : Nat) (text : List Char) : List Char :=
  text ++ List.replicate (width - text.length) ' '

def plain (event : Event) : String :=
  let others := event.entries.filter fun entry => !ownKeys.contains entry.1
  String.ofList ('[' :: (padded 9 event.severity.label.toList ++ ']' :: ' ' ::
    (padded 30 event.name.toList ++ ' ' :: '[' :: (event.logger.toList ++ [']'])))
    ++ (Json.sortByKey others).flatMap fun (key, value) =>
      ' ' :: (key.toList ++ '=' :: plainValue value))

def text (asJson : Bool) (event : Event) : String :=
  if asJson then event.toJson.canonical else event.plain

end Event

def written (threshold : Threshold) (events : List Event) : List Event :=
  events.filter (Event.passes threshold)

/-- How many lines events take. JSON takes one line. -/
def lineCount (asJson : Bool) (events : List Event) : Nat :=
  if asJson then events.length
  else (events.map fun event => (Text.lines event.plain.toList).length).sum

end PartialUpdate.Log
