import TagPrompt.Generation.Generator
import TagPrompt.Settings.Toml

/-! How a command that fails says so: what went wrong, and below it what caused that, outermost
first. -/

namespace TagPrompt

/-- Why a command fails. -/
structure Failure where
  message : String
  causes : List String := []
  deriving DecidableEq, Repr

/-! ### Causes -/

def DataError.causes : DataError → List String
  | .unreadable _ fault => [fault.message]
  | .json => [jsonDetail]
  | .invalidRange .. => []

def FetchError.causes : FetchError → List String
  | .io fault => [fault.message]
  | _ => []

def SearchError.causes : SearchError → List String
  | .fetch error => error.message :: error.causes
  | _ => []

def SettingsError.causes : SettingsError → List String
  | .unreadable fault => [fault.message]
  | .parse => [SettingsError.parseDetail]
  | .invalid _ => []

namespace Failure

def ofData (error : DataError) : Failure := ⟨error.message, error.causes⟩
def ofFetch (error : FetchError) : Failure := ⟨error.message, error.causes⟩
def ofSearch (error : SearchError) : Failure := ⟨error.message, error.causes⟩

/-- The settings file at a path gives no settings. -/
def ofSettings (path : Text) (error : SettingsError) : Failure :=
  ⟨"loading " ++ String.ofList path, error.message :: error.causes⟩

/-! ### The report -/

/-- Causes with their numbers, a line each. -/
def numbered (n : Nat) : List String → String
  | [] => ""
  | cause :: causes => "    " ++ toString n ++ ": " ++ cause ++ "\n" ++ numbered (n + 1) causes

/-- The lines of causes; a single one has no number. -/
def causeLines : List String → String
  | [] => ""
  | [cause] => "\nCaused by:\n    " ++ cause ++ "\n"
  | causes => "\nCaused by:\n" ++ numbered 0 causes

/-- The lines that report a failure. -/
def report (failure : Failure) : String :=
  "Error: " ++ failure.message ++ "\n" ++ causeLines failure.causes

end Failure
end TagPrompt
