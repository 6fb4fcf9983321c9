import TagPrompt.Categories
import TagPrompt.Generation.Ratings

/-! The switches of the generator, and what is taken away from a prompt that was found in the corpus
before it is used. -/

namespace TagPrompt

/-- What the generator leaves out, takes away and respells. -/
structure GenerationOptions where
  /-- No prompt is searched for. -/
  searchDisabled : Bool := false
  /-- Searches are restricted to prompts with the general rating. -/
  removeNsfw : Bool := false
  removeArtist : Bool := false
  removeCharacter : Bool := false
  removeCharacteristic : Bool := false
  removeAttire : Bool := false
  removeCopyright : Bool := false
  removeOrnament : Bool := false
  removeEmotion : Bool := false
  /-- Prompts are put into presentation order. -/
  reorder : Bool := true
  /-- Prompts are put into the standard vocabulary. -/
  naiStandard : Bool := false
  /-- Text after the last comma of a fragment is dropped. -/
  legacyTrailingDrop : Bool := false
  deriving DecidableEq, Repr, Inhabited

/-- The prompts that a found prompt is put between, and the prompt of what is not wanted. -/
structure Surroundings where
  beginning : Prompt
  ending : Prompt
  negative : Prompt

/-- The tag that asks for nothing to be censored. -/
def uncensoredTag : Text := "uncensored".toList

/-- The lists of the categories that the options take away, in the order in which they go. -/
def removedLists (options : GenerationOptions) (categories : Categories) : List (List Text) :=
  [(options.removeArtist, categories.artist),
   (options.removeCharacter, categories.character),
   (options.removeCharacteristic, categories.characteristic),
   (options.removeAttire, categories.clothes),
   (options.removeCopyright, categories.copyright),
   (options.removeOrnament, categories.ornament),
   (options.removeEmotion, categories.emotions)].filterMap fun removal =>
    if removal.1 then some removal.2 else none

/-- Keeps the tags on the whitelist; an empty whitelist keeps all. -/
def keepWhitelisted (categories : Categories) (p : Prompt) : Prompt :=
  if categories.whitelist.isEmpty then p else p.keepListed categories.whitelist

/-- Takes away what the options, the categories and the surrounding prompts rule out. -/
def filterFound (options : GenerationOptions) (categories : Categories) (around : Surroundings)
    (found : Prompt) : Prompt :=
  let p := keepWhitelisted categories found
  let p := (removedLists options categories).foldl Prompt.remove p
  let p := p.remove (ratings.map RatingNames.long)
  let p := p.remove categories.bad
  let p := p.remove around.beginning.texts
  let p := p.remove around.ending.texts
  p.remove around.negative.texts

/-- Takes away the tags of censoring where a surrounding prompt asks for none. -/
def filterCensoring (categories : Categories) (around : Surroundings) (p : Prompt) : Prompt :=
  if around.beginning.mentions uncensoredTag || around.ending.mentions uncensoredTag then
    p.remove categories.censor
  else p

end TagPrompt
