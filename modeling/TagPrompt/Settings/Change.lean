import TagPrompt.CorpusLayout
import TagPrompt.Settings.Basic

/-! Changes to settings. -/

namespace TagPrompt

/-- One change to settings. -/
inductive SettingsChange
  /-- The sources and the tag index are the files of a corpus. -/
  | corpus (paths : CorpusPaths)
  | categoriesPath (path : Text)
  | wildcardDir (path : Text)
  | promptWindowBytes (bytes : UInt64)
  | searchDisabled (flag : Bool)
  | reorder (flag : Bool)
  | removeArtist (flag : Bool)
  | naiStandard (flag : Bool)
  | logLevel (level : Text)
  deriving DecidableEq, Repr

namespace Settings

/-- The settings with the files of a corpus as sources and tag index. -/
def withCorpus (s : Settings) (paths : CorpusPaths) : Settings :=
  { s with
    source.positionsUrl := paths.positions
    source.corpusUrl := paths.corpus
    data.tagIndexPath := paths.index }

def apply (s : Settings) : SettingsChange → Settings
  | .corpus paths => s.withCorpus paths
  | .categoriesPath path => { s with data.categoriesPath := some path }
  | .wildcardDir path => { s with data.wildcardDir := some path }
  | .promptWindowBytes bytes => { s with source.promptWindowBytes := bytes }
  | .searchDisabled flag => { s with pipeline.searchDisabled := flag }
  | .reorder flag => { s with pipeline.reorder := flag }
  | .removeArtist flag => { s with pipeline.removeArtist := flag }
  | .naiStandard flag => { s with pipeline.naiStandard := flag }
  | .logLevel level => { s with logging.level := level }

/-- The default settings after changes, one after another. -/
def ofChanges (changes : List SettingsChange) : Settings := changes.foldl apply {}

end Settings
end TagPrompt
