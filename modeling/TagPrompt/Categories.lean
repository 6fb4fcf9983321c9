import TagPrompt.DataFile
import TagPrompt.Prompt.Basic

/-! The lists that say what kind of thing a tag is, their JSON file, and what they do to a prompt:
its presentation order and the standard vocabulary of the image service. -/

namespace TagPrompt

/-- Twelve lists of tags. A tag may be in several of them. -/
structure Categories where
  count : List Text := []
  character : List Text := []
  copyright : List Text := []
  artist : List Text := []
  quality : List Text := []
  censor : List Text := []
  bad : List Text := []
  whitelist : List Text := []
  characteristic : List Text := []
  clothes : List Text := []
  ornament : List Text := []
  emotions : List Text := []
  deriving DecidableEq, Repr, Inhabited

namespace Categories

/-- The fields of the file, in order. -/
def fieldNames : List Text :=
  ["count", "character", "copyright", "artist", "quality", "censor", "bad", "whitelist",
    "characteristic", "clothes", "ornament", "emotions"].map String.toList

/-- Twelve lists as categories. -/
def ofLists : List (List Text) → Categories
  | [count, character, copyright, artist, quality, censor, bad, whitelist, characteristic, clothes,
      ornament, emotions] =>
      { count, character, copyright, artist, quality, censor, bad, whitelist, characteristic,
        clothes, ornament, emotions }
  | _ => {}

/-- The list of a field; an absent field has the empty one. -/
def listOfField? : Option JsonValue → Option (List Text)
  | none => some []
  | some value => value.texts?

def parse (text : Text) : Except DataError Categories :=
  match (do
    let document ← JsonValue.parse text
    let fields ← document.fields? fieldNames
    fields.mapM listOfField?) with
  | some lists => .ok (ofLists lists)
  | none => .error .json

def load (files : FileTree) (path : Text) : Except DataError Categories := do
  parse (← readDataFile files path)

end Categories

/-! ### Prompts arranged by the lists -/

namespace Prompt

/-- What artist tags begin with in the standard vocabulary. -/
def artistLead : Text := "artist:".toList

/-- Presentation order: count, character, copyright and artist tags first, each in the order of its
list, quality tags last, everything else as it stands between them. -/
def reorder (categories : Categories) (p : Prompt) : Prompt :=
  let (counts, p) := moveOut [] categories.count p
  let (characters, p) := moveOut [] categories.character p
  let (copyrights, p) := moveOut [] categories.copyright p
  let (artists, p) := moveOut artistLead categories.artist p
  let (qualities, p) := moveOut [] categories.quality p
  counts ++ characters ++ copyrights ++ artists ++ p ++ qualities

/-- Tags with another name in the standard vocabulary. -/
def standardNames : List (Text × Text) :=
  [("v".toList, "peace sign".toList),
   ("double v".toList, "double peace".toList),
   ("| |".toList, "bar eyes".toList),
   ("\\| |/".toList, "open \\m/".toList),
   (":|".toList, "neutral face".toList),
   (";|".toList, "neutral face".toList),
   ("eyepatch bikini".toList, "square bikini".toList),
   ("tachi-e".toList, "character image".toList)]

/-- The text of a tag in the standard vocabulary, where a bare artist name gets its lead. -/
def standardText (artists : List Text) (text : Text) : Text :=
  match standardNames.lookup text with
  | some name => name
  | none => if artists.contains text then artistLead ++ text else text

def standardize (categories : Categories) (p : Prompt) : Prompt :=
  p.mapText (standardText categories.artist)

end Prompt
end TagPrompt
