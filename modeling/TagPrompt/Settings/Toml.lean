import TagPrompt.Files.Tree
import TagPrompt.Settings.Basic
import TagPrompt.Toml.Reader
import TagPrompt.Toml.Record

/-! Settings from their TOML file and as the text of one. Whatever a file does not mention has its
default. -/

namespace TagPrompt

open TomlValue (fieldOr)

/-- Why no settings come of a file. -/
inductive SettingsError
  | unreadable (fault : IoFault)
  /-- The text is no TOML, or a value is not of the kind that its key asks for. -/
  | parse
  | invalid (fault : SettingsFault)
  deriving DecidableEq, Repr

/-- What is wrong with a text that gives no settings. -/
def SettingsError.parseDetail : String := "no table of the expected form"

def SettingsError.message : SettingsError → String
  | .unreadable fault => "failed to read config file: " ++ fault.message
  | .parse => "failed to parse TOML: " ++ parseDetail
  | .invalid fault => "validation error: " ++ fault.message

/-! ### The keys -/

def SourceSettings.keys : List Text :=
  ["positions_url", "corpus_url", "timeout_secs", "prompt_window_bytes"].map String.toList

def DataSettings.keys : List Text :=
  ["tag_index_path", "categories_path", "wildcard_dir"].map String.toList

def GenerationOptions.keys : List Text :=
  ["search_disabled", "remove_nsfw", "remove_artist", "remove_character", "remove_characteristic",
    "remove_attire", "remove_copyright", "remove_ornament", "remove_emotion", "reorder",
    "nai_standard", "legacy_trailing_drop"].map String.toList

def LoggingSettings.keys : List Text := ["level"].map String.toList

def Settings.keys : List Text := ["source", "data", "pipeline", "logging"].map String.toList

/-! ### The sections -/

def SourceSettings.ofToml (value : TomlValue) : Option SourceSettings := do
  let absent : SourceSettings := {}
  match ← value.fields? keys with
  | [positionsUrl, corpusUrl, timeoutSecs, promptWindowBytes] =>
      return {
        positionsUrl := ← fieldOr absent.positionsUrl TomlValue.text? positionsUrl
        corpusUrl := ← fieldOr absent.corpusUrl TomlValue.text? corpusUrl
        timeoutSecs := ← fieldOr absent.timeoutSecs TomlValue.count? timeoutSecs
        promptWindowBytes := ← fieldOr absent.promptWindowBytes TomlValue.count? promptWindowBytes }
  | _ => none

def DataSettings.ofToml (value : TomlValue) : Option DataSettings := do
  let absent : DataSettings := {}
  let optionalText (value : TomlValue) : Option (Option Text) := value.text?.map some
  match ← value.fields? keys with
  | [tagIndexPath, categoriesPath, wildcardDir] =>
      return {
        tagIndexPath := ← fieldOr absent.tagIndexPath TomlValue.text? tagIndexPath
        categoriesPath := ← fieldOr absent.categoriesPath optionalText categoriesPath
        wildcardDir := ← fieldOr absent.wildcardDir optionalText wildcardDir }
  | _ => none

def GenerationOptions.flags (options : GenerationOptions) : List Bool :=
  [options.searchDisabled, options.removeNsfw, options.removeArtist, options.removeCharacter,
    options.removeCharacteristic, options.removeAttire, options.removeCopyright,
    options.removeOrnament, options.removeEmotion, options.reorder, options.naiStandard,
    options.legacyTrailingDrop]

def GenerationOptions.ofFlags : List Bool → Option GenerationOptions
  | [searchDisabled, removeNsfw, removeArtist, removeCharacter, removeCharacteristic, removeAttire,
      removeCopyright, removeOrnament, removeEmotion, reorder, naiStandard, legacyTrailingDrop] =>
      some
        { searchDisabled, removeNsfw, removeArtist, removeCharacter, removeCharacteristic,
          removeAttire, removeCopyright, removeOrnament, removeEmotion, reorder, naiStandard,
          legacyTrailingDrop }
  | _ => none

def GenerationOptions.ofToml (value : TomlValue) : Option GenerationOptions := do
  let fields ← value.fields? keys
  let absent : GenerationOptions := {}
  ofFlags (← (absent.flags.zip fields).mapM fun (absent, field) =>
    fieldOr absent TomlValue.flag? field)

def LoggingSettings.ofToml (value : TomlValue) : Option LoggingSettings := do
  let absent : LoggingSettings := {}
  match ← value.fields? keys with
  | [level] => return { level := ← fieldOr absent.level TomlValue.text? level }
  | _ => none

namespace Settings

/-- The settings that a document gives. -/
def ofToml (document : TomlValue) : Option Settings := do
  match ← document.fields? keys with
  | [source, data, pipeline, logging] =>
      return {
        source := ← fieldOr {} SourceSettings.ofToml source
        data := ← fieldOr {} DataSettings.ofToml data
        pipeline := ← fieldOr {} GenerationOptions.ofToml pipeline
        logging := ← fieldOr {} LoggingSettings.ofToml logging }
  | _ => none

/-- Settings that keep the rules. -/
def check (settings : Settings) : Except SettingsError Settings :=
  match settings.fault? with
  | some fault => .error (.invalid fault)
  | none => .ok settings

/-- The settings that a text gives, if they keep the rules. -/
def parse (text : Text) : Except SettingsError Settings :=
  match (TomlValue.parse text).bind ofToml with
  | some settings => settings.check
  | none => .error .parse

def load (files : FileTree) (path : Text) : Except SettingsError Settings :=
  match files.readText path with
  | .ok text => parse text
  | .error fault => .error (.unreadable fault)

/-- Reads the settings file; where nothing is at the path, the settings are the defaults. -/
def loadIfThere (files : FileTree) (path : Text) : Except SettingsError Settings :=
  if files.contains path then load files path else .ok {}

end Settings

/-! ### Writing

Every section with its header and all its fields, paths that are not set left out. -/

def flagText (flag : Bool) : Text := (if flag then "true" else "false").toList

def fieldLine (key value : Text) : Text := key ++ " = ".toList ++ value ++ ['\n']

/-- The lines of fields; a field without a value has none. -/
def fieldLines (keys : List Text) (values : List (Option Text)) : Text :=
  (keys.zip values).flatMap fun (key, value) =>
    match value with
    | some value => fieldLine key value
    | none => []

def SourceSettings.render (s : SourceSettings) : Text :=
  fieldLines keys
    [some (TomlString.write s.positionsUrl), some (TomlString.write s.corpusUrl),
      some (Text.ofNat s.timeoutSecs.toNat), some (Text.ofNat s.promptWindowBytes.toNat)]

def DataSettings.render (s : DataSettings) : Text :=
  fieldLines keys
    [some (TomlString.write s.tagIndexPath), s.categoriesPath.map TomlString.write,
      s.wildcardDir.map TomlString.write]

def GenerationOptions.render (options : GenerationOptions) : Text :=
  fieldLines keys (options.flags.map fun flag => some (flagText flag))

def LoggingSettings.render (s : LoggingSettings) : Text :=
  fieldLines keys [some (TomlString.write s.level)]

def underHeader (name lines : Text) : Text := '[' :: (name ++ [']', '\n'] ++ lines)

/-- All sections, a blank line between them. -/
def Settings.render (s : Settings) : Text :=
  Text.join ['\n'] <| List.zipWith underHeader keys
    [s.source.render, s.data.render, s.pipeline.render, s.logging.render]

end TagPrompt
