import PartialUpdate.CommandLine.Command

/-!
A run of the program: its settings, the command, and how it ends.
-/

set_option autoImplicit false

namespace PartialUpdate.CommandLine

/-- How a run ends. A failure that is expected nowhere escapes. -/
inductive Exit where
  | returned
  | code (code : Nat)
  | escaped (failure : Failure)

inductive Output where
  | text (text : String)
  | help (command : Option Command)

structure Outcome where
  exit : Exit
  output : Output
  notices : List String
  events : List Log.Event
  logJson : Bool
  fs : FileSystem

namespace Outcome

def early (fs : FileSystem) (exit : Exit) (notices : List String) : Outcome :=
  ⟨exit, .text "", notices, [], false, fs⟩

end Outcome

def notice (failure : Failure) : String := s!"[ERROR] {failure.message}"

def finish (command : Command) (settings : Settings) (threshold : Log.Threshold)
    (result : Except Halt Unit) (session : Session) : Outcome :=
  let outcome (exit : Exit) (notices : List String) (events : List Log.Event) : Outcome :=
    ⟨exit, .text session.printed, notices, Log.written threshold events, settings.logJson,
      session.fs⟩
  match result with
  | .ok () => outcome (.code 0) [] session.events
  | .error (.refusal .help) =>
    { outcome (.code 0) [] session.events with output := .help (some command) }
  | .error (.refusal .misuse) => outcome (.code 2) [] session.events
  | .error (.failure failure) => match failure.logName? with
    | some name =>
      outcome (.code 1) [notice failure]
        (session.events ++ [⟨.debug, Action.commandLogger, "command_failed",
          [("cmd", .string command.name), ("error", .string name)]⟩])
    | none => outcome (.escaped failure) [] session.events

def runCommand (command : Command) (settings : Settings) (fs : FileSystem) (words : List String) :
    Outcome :=
  match Log.Threshold.ofName settings.logLevel with
  | .error error => .early fs (.escaped (.threshold error)) []
  | .ok threshold =>
    let (result, session) := (command.run settings words).run ⟨fs, "", []⟩
    finish command settings threshold result session

def run (fs : FileSystem) (environment : Environment) (words : List String) : Outcome :=
  match words with
  | [] => { Outcome.early fs .returned [] with output := .help none }
  | name :: words => match Command.ofName? name with
    | none => .early fs (.code 2) [s!"Unknown command: {name}"]
    | some command => match Settings.load fs environment none with
      | .ok settings => runCommand command settings fs words
      | .error error =>
        let failure := Failure.settings error
        if failure.logName?.isSome then .early fs (.code 1) [notice failure]
        else .early fs (.escaped failure) []

end PartialUpdate.CommandLine
