import TagPrompt.CommandLine.Arguments
import TagPrompt.Generation.Generator
import TagPrompt.Text.Basic

/-! The commands of the program and the arguments that call them. -/

namespace TagPrompt

/-- What the program is asked to do. -/
inductive Command
  /-- Generate a prompt. -/
  | generate (request : Request) (seed : Option UInt64)
  /-- Expand a text. -/
  | expand (text : Text) (seed : Option UInt64)
  /-- Say where the positions of a tag are, and possibly fetch them. -/
  | lookup (tag : Text) (fetch : Bool)
  /-- Check the settings, and possibly show them. -/
  | config (shown : Bool)
  deriving DecidableEq, Repr

/-- A command with the settings file that it is run with. -/
structure Invocation where
  settingsPath : Text
  command : Command
  deriving DecidableEq, Repr

namespace Invocation

/-! ### The arguments -/

/-- The seed that a text spells: decimal digits, possibly behind a plus, of a number of 64 bits. -/
def seed? (t : Text) : Option UInt64 :=
  let digits := Text.strip ['+'] t
  if !digits.isEmpty && digits.all Text.isDigit && Text.decimal digits < UInt64.size then
    some (Text.decimal digits).toUInt64
  else none

def valueRule (long : String) (accepts : Text → Bool) : OptionRule :=
  ⟨long.toList, none, .value accepts, false⟩

/-- An option with a value that may be any text. -/
def textRule (long : String) : OptionRule := valueRule long fun _ => true

def seedRule : OptionRule := valueRule "seed" fun value => (seed? value).isSome
def flagRule (long : String) : OptionRule := ⟨long.toList, none, .flag, false⟩
def helpRule : OptionRule := ⟨"help".toList, some 'h', .help, false⟩

/-- The settings file that is used where none is named. -/
def defaultSettingsPath : Text := "promptsmith.toml".toList

/-- The name of the command that explains the others. -/
def helpName : Text := "help".toList

def rules : ArgumentRules :=
  { options := [
      ⟨"config".toList, some 'c', .value fun value => !value.isEmpty, false⟩,
      ⟨"verbose".toList, some 'v', .flag, true⟩,
      helpRule,
      ⟨"version".toList, some 'V', .version, false⟩]
    commands := ["generate", "expand", "lookup", "config"].map String.toList ++ [helpName] }

def generateRules : ArgumentRules :=
  { options := ["beg", "search", "end", "negative"].map textRule ++
      [{ textRule "character" with repeatable := true }, seedRule, helpRule] }

/-- The request that the options of generating make. -/
def requestOf (s : ArgumentState) : Request :=
  let fragment (long : String) : Text := (s.value? long).getD []
  { beginning := fragment "beg"
    search := fragment "search"
    ending := fragment "end"
    negative := fragment "negative"
    characters := s.values "character" }

def seedOf (s : ArgumentState) : Option UInt64 := (s.value? "seed").bind seed?

def readGenerate (arguments : List Text) : Except Halt Command := do
  let s ← generateRules.readAll arguments
  return .generate (requestOf s) (seedOf s)

def readExpand (arguments : List Text) : Except Halt Command := do
  let rules : ArgumentRules := { options := [seedRule, helpRule], positional := 1 }
  let s ← rules.readAll arguments
  match s.positional with
  | [text] => return .expand text (seedOf s)
  | _ => throw .misuse

def readLookup (arguments : List Text) : Except Halt Command := do
  let rules : ArgumentRules := { options := [flagRule "fetch", helpRule], positional := 1 }
  let s ← rules.readAll arguments
  match s.positional with
  | [tag] => return .lookup tag (s.has "fetch")
  | _ => throw .misuse

def readConfig (arguments : List Text) : Except Halt Command := do
  let rules : ArgumentRules := { options := [flagRule "show", helpRule] }
  let s ← rules.readAll arguments
  return .config (s.has "show")

/-- An explanation can be had of the program and of each command. -/
def readHelp (arguments : List Text) : Except Halt Command :=
  match arguments with
  | [] => .error .help
  | [name] => .error (if rules.commands.contains name then .help else .misuse)
  | _ => .error .misuse

def readCommand (name : Text) (arguments : List Text) : Except Halt Command :=
  if name = "generate".toList then readGenerate arguments
  else if name = "expand".toList then readExpand arguments
  else if name = "lookup".toList then readLookup arguments
  else if name = "config".toList then readConfig arguments
  else readHelp arguments

def parse (arguments : List Text) : Except Halt Invocation := do
  match ← rules.read {} arguments with
  | .finished _ => throw .misuse
  | .command s name rest =>
      let command ← readCommand name rest
      let s ← s.settle
      return ⟨(s.value? "config").getD defaultSettingsPath, command⟩

end Invocation
end TagPrompt
