import PartialUpdate.CommandLine.Command

/-!
Help on the program and on its commands.
-/

set_option autoImplicit false

namespace PartialUpdate.CommandLine

def programName : String := "partial-update"

def OptionForm.help (form : OptionForm) : String :=
  match form.kind with
  | .text => s!"{form.name} TEXT"
  | .integer => s!"{form.name} NUMBER"
  | _ => form.name

def Command.help (command : Command) : String :=
  let usage := command.usage
  let words := usage.options.map fun form =>
    if usage.required.contains form.name then form.help else s!"[{form.help}]"
  let plain := match usage.plain with
    | some name => [name]
    | none => []
  "usage: " ++ programName ++ " " ++ " ".intercalate (command.name :: "[-h]" :: (words ++ plain)) ++
    "\n\n" ++ command.purpose

def help : Option Command → String
  | some command => command.help
  | none =>
    let lines := Command.all.map fun command => s!"  {command.name}: {command.purpose}"
    "usage: " ++ programName ++ " [-h] COMMAND ...\n\n" ++ "\n".intercalate lines

end PartialUpdate.CommandLine
