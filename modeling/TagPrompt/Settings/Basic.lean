import TagPrompt.Generation.Filtering
import TagPrompt.Text.Basic
import TagPrompt.Text.Message

/-! The settings of the program, in four sections, and the rules that settings have to keep. -/

namespace TagPrompt

/-- Where the position table and the corpus are, and how they are read. -/
structure SourceSettings where
  positionsUrl : Text :=
    "https://huggingface.co/Jio7/NAI-Prompt-Randomizer/resolve/main/pos.dat".toList
  corpusUrl : Text :=
    "https://huggingface.co/Jio7/NAI-Prompt-Randomizer/resolve/main/tags.dat".toList
  timeoutSecs : UInt64 := 30
  promptWindowBytes : UInt64 := 10001
  deriving DecidableEq, Repr, Inhabited

/-- How long a read may take. -/
def SourceSettings.timeout (s : SourceSettings) : Millis := s.timeoutSecs.toNat * 1000

/-- The data files. -/
structure DataSettings where
  tagIndexPath : Text := "data/tag_index.json".toList
  categoriesPath : Option Text := none
  wildcardDir : Option Text := none
  deriving DecidableEq, Repr, Inhabited

/-- How much is logged. -/
structure LoggingSettings where
  level : Text := "info".toList
  deriving DecidableEq, Repr, Inhabited

/-- All settings. -/
structure Settings where
  source : SourceSettings := {}
  data : DataSettings := {}
  pipeline : GenerationOptions := {}
  logging : LoggingSettings := {}
  deriving DecidableEq, Repr, Inhabited

/-! ### Validation -/

/-- The rule that settings break first. -/
inductive SettingsFault
  | emptyPositionsUrl
  | emptyCorpusUrl
  | zeroTimeout
  | zeroWindow
  | emptyTagIndexPath
  | unknownLevel (level : Text)
  deriving DecidableEq, Repr

def logLevels : List Text := ["trace", "debug", "info", "warn", "error"].map String.toList

def SettingsFault.message : SettingsFault → String
  | .emptyPositionsUrl => "source.positions_url must not be empty"
  | .emptyCorpusUrl => "source.corpus_url must not be empty"
  | .zeroTimeout => "source.timeout_secs must be non-zero"
  | .zeroWindow => "source.prompt_window_bytes must be non-zero"
  | .emptyTagIndexPath => "data.tag_index_path must not be empty"
  | .unknownLevel level =>
      "logging.level must be one of [" ++ String.intercalate ", " (logLevels.map Text.quoted) ++
        "], got " ++ Text.quoted level

def Text.isAllBlank (t : Text) : Bool := (Text.trim t).isEmpty

/-- The first rule that settings break, if they break one. -/
def Settings.fault? (s : Settings) : Option SettingsFault :=
  if Text.isAllBlank s.source.positionsUrl then some .emptyPositionsUrl
  else if Text.isAllBlank s.source.corpusUrl then some .emptyCorpusUrl
  else if s.source.timeoutSecs = 0 then some .zeroTimeout
  else if s.source.promptWindowBytes = 0 then some .zeroWindow
  else if Text.isAllBlank s.data.tagIndexPath then some .emptyTagIndexPath
  else if logLevels.contains s.logging.level then none
  else some (.unknownLevel s.logging.level)

end TagPrompt
