import TagPrompt.Text.Basic

/-! Reading the arguments of a command. Options may stand between and behind positional arguments
and have a long name, `--name`, and possibly a short one, `-n`. The value of an option is the next
argument or is joined to it: `--name=value`, `-nvalue`, `-n=value`. Short names of options without
values may be run together. A value that begins with a dash has to be joined, unless it is the dash
alone. Behind `--` every argument is positional. -/

namespace TagPrompt

/-- What an option is there for. -/
inductive OptionKind
  /-- It has a value, and only some texts will do. -/
  | value (accepts : Text → Bool)
  /-- It is there or not. -/
  | flag
  /-- It asks for an explanation of the command instead. -/
  | help
  /-- It asks for the version instead. -/
  | version

/-- An option of a command. -/
structure OptionRule where
  long : Text
  short : Option Char
  kind : OptionKind
  /-- Whether it may be given more than once. -/
  repeatable : Bool := false

/-- What a command takes: its options, at most so many positional arguments, and, if it is a group
of commands, their names. -/
structure ArgumentRules where
  options : List OptionRule
  positional : Nat := 0
  commands : List Text := []

/-- Why arguments are no call of a command. -/
inductive Halt
  | help
  | version
  | misuse
  deriving DecidableEq, Repr

/-- An option that is still without its value, or whose value has just been read. -/
structure PendingOption where
  rule : OptionRule
  value : Option Text

/-- What has been read so far. Options are known by their long names. -/
structure ArgumentState where
  given : List (Text × Text) := []
  pending : Option PendingOption := none
  positional : List Text := []
  /-- Whether all further arguments are positional. -/
  trailing : Bool := false

namespace ArgumentState

/-- Whether the next argument may be the value of an option. -/
def awaitsValue (s : ArgumentState) : Bool :=
  match s.pending with
  | some ⟨_, none⟩ => true
  | _ => false

/-- Takes an option into what was given. -/
def give (s : ArgumentState) (rule : OptionRule) (value : Text) : Except Halt ArgumentState :=
  if !rule.repeatable && s.given.any fun known => known.1 == rule.long then .error .misuse
  else .ok { s with given := s.given ++ [(rule.long, value)] }

/-- Takes an option with a value into what was given. -/
def giveValue (s : ArgumentState) (rule : OptionRule) (value : Text) :
    Except Halt ArgumentState :=
  match rule.kind with
  | .value accepts => if accepts value then s.give rule value else .error .misuse
  | _ => .error .misuse

/-- Takes the pending option into what was given. Its value is looked at only here, so a command
that follows it is read first. -/
def settle (s : ArgumentState) : Except Halt ArgumentState :=
  match s.pending with
  | none => .ok s
  | some ⟨_, none⟩ => .error .misuse
  | some ⟨rule, some value⟩ => { s with pending := none }.giveValue rule value

/-- Takes a positional argument. -/
def place (rules : ArgumentRules) (s : ArgumentState) (argument : Text) :
    Except Halt ArgumentState := do
  let s ← s.settle
  if s.positional.length < rules.positional then
    return { s with positional := s.positional ++ [argument] }
  else throw .misuse

/-- Takes an option that is named, with the value that is joined to its name. -/
def meet (s : ArgumentState) (rule : OptionRule) (joined : Option Text) :
    Except Halt ArgumentState := do
  match rule.kind, joined with
  | .value _, some value => (← s.settle).giveValue rule value
  | .value _, none => return { (← s.settle) with pending := some ⟨rule, none⟩ }
  | _, some _ => throw .misuse
  | .flag, none => (← s.settle).give rule []
  | .help, none => let _ ← s.settle; throw .help
  | .version, none => let _ ← s.settle; throw .version

/-- Takes the options of a run of short names. -/
def meetShort (rules : ArgumentRules) (s : ArgumentState) : Text → Except Halt ArgumentState
  | [] => .ok s
  | c :: rest =>
      match rules.options.find? fun rule => rule.short == some c with
      | none => .error .misuse
      | some rule =>
          match rule.kind with
          | .value _ => s.meet rule (if rest.isEmpty then none else some (Text.strip ['='] rest))
          | _ =>
              match s.meet rule none with
              | .ok s => meetShort rules s rest
              | .error halt => .error halt

/-- Takes the option of a long name with whatever is joined to it. -/
def meetLong (rules : ArgumentRules) (s : ArgumentState) (text : Text) :
    Except Halt ArgumentState :=
  let (name, joined) := text.span (· ≠ '=')
  match rules.options.find? fun rule => rule.long == name with
  | none => .error .misuse
  | some rule => s.meet rule (if joined.isEmpty then none else some joined.tail)

/-- Takes the next argument, which is no name of a command. -/
def take (rules : ArgumentRules) (s : ArgumentState) (argument : Text) :
    Except Halt ArgumentState :=
  if s.trailing then s.place rules argument
  else
    match argument with
    | ['-', '-'] => .ok { s with trailing := true }
    | '-' :: '-' :: text => s.meetLong rules text
    | '-' :: c :: names => s.meetShort rules (c :: names)
    | _ =>
        match s.pending with
        | some ⟨rule, none⟩ => .ok { s with pending := some ⟨rule, some argument⟩ }
        | _ => s.place rules argument

/-- The only value given to an option. -/
def value? (s : ArgumentState) (long : String) : Option Text := s.given.lookup long.toList

def values (s : ArgumentState) (long : String) : List Text :=
  (s.given.filter fun known => known.1 == long.toList).map Prod.snd

def has (s : ArgumentState) (long : String) : Bool := (s.value? long).isSome

end ArgumentState

/-- Where reading arguments ends. -/
inductive ArgumentEnd
  /-- All arguments have been read. -/
  | finished (state : ArgumentState)
  /-- A command is named, and these arguments are its own. -/
  | command (state : ArgumentState) (name : Text) (rest : List Text)

/-- Reads arguments up to the name of a command or to their end. -/
def ArgumentRules.read (rules : ArgumentRules) (s : ArgumentState) :
    List Text → Except Halt ArgumentEnd
  | [] => .ok (.finished s)
  | argument :: rest =>
      if !s.trailing && !s.awaitsValue && rules.commands.contains argument then
        .ok (.command s argument rest)
      else
        match s.take rules argument with
        | .ok s => rules.read s rest
        | .error halt => .error halt

/-- Reads all arguments of a command that is no group. -/
def ArgumentRules.readAll (rules : ArgumentRules) (arguments : List Text) :
    Except Halt ArgumentState := do
  match ← rules.read {} arguments with
  | .finished s => s.settle
  | .command .. => throw .misuse

end TagPrompt
