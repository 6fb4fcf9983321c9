import TagPrompt.Choice.KeyStream
import TagPrompt.CommandLine.Command
import TagPrompt.CommandLine.Failure
import TagPrompt.Generation.Generator
import TagPrompt.Settings.Toml

/-! Running the program over a snapshot of the files: what it prints, what it tells meanwhile, and
how it ends. -/

namespace TagPrompt

/-- What a run depends on besides its arguments. -/
structure Environment where
  files : FileTree
  web : Web
  /-- The seed of choices where none is given. -/
  seed : UInt64

/-- How a run ends. -/
inductive Ending
  | success
  | failure (why : Failure)
  /-- The arguments call no command. -/
  | misuse
  /-- A read crashed, and the program with it. -/
  | crash
  deriving DecidableEq, Repr

def Ending.ofGeneration : GenerationError → Ending
  | .search error => .failure (.ofSearch error)
  | .fetch error => .failure (.ofFetch error)
  | .crashed => .crash

/-- What a run leaves behind: the lines it printed, what it told, and how it ended. -/
structure Transcript where
  printed : List Text := []
  progress : List Progress := []
  ending : Ending := .success
  deriving DecidableEq, Repr

namespace Transcript

/-- The code that a run ends with. -/
def exitCode (t : Transcript) : UInt32 :=
  match t.ending with
  | .success => 0
  | .failure _ => 1
  | .misuse => 2
  | .crash => 101

def output (t : Transcript) : String :=
  String.join (t.printed.map fun line => String.ofList line ++ "\n")

/-- What a call that is no command is answered with. -/
def misuseReport : String := "The arguments call no command; try --help.\n"

/-- The text of what was told, with the reason of a failure behind it. What is told of a crash is
not the program's. -/
def reports (t : Transcript) : String :=
  String.join (t.progress.map fun p => p.message ++ "\n") ++
    match t.ending with
    | .success => ""
    | .failure why => why.report
    | .misuse => misuseReport
    | .crash => ""

/-- A run that fails before anything happens. -/
def failed (why : Failure) : Transcript := { ending := .failure why }

end Transcript

namespace Environment

/-! ### The commands -/

def generatedLines (made : GeneratedPrompt) : List Text :=
  made.prompt ::
    ((if made.negative.isEmpty then [] else ["negative: ".toList ++ made.negative]) ++
      made.characters.mapIdx fun i character =>
        "character ".toList ++ Text.ofNat (i + 1) ++ ": ".toList ++ character)

def generate (env : Environment) (settings : Settings) (request : Request)
    (seed : Option UInt64) : Transcript :=
  match Generator.ofSettings env.files env.web settings with
  | .error error => .failed (.ofData error)
  | .ok generator =>
      match generator.generate none request (KeyStream.ofSeed (seed.getD env.seed)) with
      | (.ok made, trace) => { printed := generatedLines made, progress := trace.progress }
      | (.error error, trace) =>
          { progress := trace.progress, ending := .ofGeneration error }

def expand (env : Environment) (settings : Settings) (text : Text) (seed : Option UInt64) :
    Transcript :=
  match settings.wildcards env.files with
  | .error error => .failed (.ofData error)
  | .ok wildcards =>
      { printed := [(TagPrompt.expand wildcards text (KeyStream.ofSeed (seed.getD env.seed))).1] }

def entryLine (entry : IndexEntry) : Text :=
  entry.tag ++ ": slots ".toList ++ Text.ofNat entry.start.toNat ++ "..".toList ++
    Text.ofNat entry.stop.toNat ++ " (".toList ++ Text.ofNat entry.size.toNat ++
      " prompts)".toList

def positionsLine (set : PositionSet) : Text :=
  match set.least?, set.greatest? with
  | some least, some greatest =>
      "fetched ".toList ++ Text.ofNat set.size ++ " offsets, ".toList ++ Text.ofNat least.toNat ++
        "..=".toList ++ Text.ofNat greatest.toNat
  | _, _ => "fetched 0 offsets".toList

def fetch (env : Environment) (settings : Settings) (entry : IndexEntry) : Fetched :=
  let limit := settings.source.timeout
  let source := openSource env.files env.web settings.source.positionsUrl limit
  (fetchPositions source limit entry).1

/-- Says where the positions of a tag are, and which they are if they are to be fetched. -/
def lookup (env : Environment) (settings : Settings) (tag : Text) (fetched : Bool) : Transcript :=
  match TagIndex.load env.files settings.data.tagIndexPath with
  | .error error => .failed (.ofData error)
  | .ok index =>
      match index.lookup tag with
      | .error error => .failed (.ofSearch error)
      | .ok entry =>
          if fetched then
            match env.fetch settings entry with
            | .positions set => { printed := [entryLine entry, positionsLine set] }
            | .failed error =>
                { printed := [entryLine entry], ending := .failure (.ofFetch error) }
            | .crashed => { printed := [entryLine entry], ending := .crash }
          else { printed := [entryLine entry] }

/-- Says that the settings are in order, or what they are. -/
def config (settings : Settings) (path : Text) (shown : Bool) : Transcript :=
  { printed :=
      [if shown then settings.render
       else "Configuration at '".toList ++ path ++ "' is valid.".toList] }

/-! ### The program -/

def execute (env : Environment) (settings : Settings) (invocation : Invocation) : Transcript :=
  match invocation.command with
  | .generate request seed => env.generate settings request seed
  | .expand text seed => env.expand settings text seed
  | .lookup tag fetched => env.lookup settings tag fetched
  | .config shown => config settings invocation.settingsPath shown

def versionLine : Text := "promptsmith 0.1.0".toList

def helpLines : List Text :=
  ["Assembles image-generation prompts from a tagged corpus.",
    "",
    "generate [--beg TEXT] [--search TAGS] [--end TEXT] [--negative TEXT] [--character TEXT]...",
    "         [--seed NUMBER]      generate a prompt",
    "expand TEXT [--seed NUMBER]   expand choices and wildcards",
    "lookup TAG [--fetch]          show the index entry of a tag, and its positions",
    "config [--show]               check the settings, and show them",
    "",
    "In front of the command: -c FILE, --config FILE, -v, --verbose, -V, --version, -h, --help"].map
      String.toList

def run (env : Environment) (arguments : List Text) : Transcript :=
  match Invocation.parse arguments with
  | .error .help => { printed := helpLines }
  | .error .version => { printed := [versionLine] }
  | .error .misuse => { ending := .misuse }
  | .ok invocation =>
      match Settings.loadIfThere env.files invocation.settingsPath with
      | .error error => .failed (.ofSettings invocation.settingsPath error)
      | .ok settings => env.execute settings invocation

end Environment
end TagPrompt
