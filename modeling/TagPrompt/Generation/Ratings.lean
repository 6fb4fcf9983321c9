import TagPrompt.Prompt.Basic
import TagPrompt.Search.Query

/-! Ratings have a long name, which people write, and a short one, which the corpus is indexed by.
Searches get the short names and prompts that were found the long ones. -/

namespace TagPrompt

/-- The long and the short name of a rating. -/
structure RatingNames where
  long : Text
  short : Text
  deriving DecidableEq, Repr

def ratings : List RatingNames :=
  [⟨"rating:general".toList, "rating:g".toList⟩,
   ⟨"rating:questionable".toList, "rating:q".toList⟩,
   ⟨"rating:explicit".toList, "rating:e".toList⟩,
   ⟨"rating:sensitive".toList, "rating:s".toList⟩]

/-- Replaces the first occurrence of a text in another one. -/
def Text.replaceFirst (old new : Text) : Text → Text
  | [] => if old.isEmpty then new else []
  | c :: rest =>
      match Text.after? old (c :: rest) with
      | some behind => new ++ behind
      | none => c :: replaceFirst old new rest

/-- A tag without blanks in front and without the space that may follow the word rating. -/
def compactRating (tag : Text) : Text :=
  Text.replaceFirst "rating: ".toList "rating:".toList (Text.trimStart tag)

/-- The short name of a rating whose long name a tag spells. -/
def shortRating? (tag : Text) : Option Text :=
  (ratings.find? fun names => names.long == compactRating tag).map RatingNames.short

/-- Shortens a tag of a search that spells the long name of a rating, marked as unwanted or not. -/
def shortenRating (tag : Text) : Text :=
  match tag with
  | [] => tag
  | c :: rest =>
      if c = Query.unwantedMark then
        match shortRating? rest with
        | some short => Query.unwantedMark :: short
        | none => tag
      else (shortRating? tag).getD tag

/-- Lengthens a tag that is the short name of a rating. -/
def lengthenRating (tag : Text) : Text :=
  match ratings.find? fun names => names.short == tag with
  | some names => names.long
  | none => tag

namespace Prompt

def shortenRatings (p : Prompt) : Prompt := p.mapText shortenRating

def lengthenRatings (p : Prompt) : Prompt := p.mapText lengthenRating

end Prompt
end TagPrompt
