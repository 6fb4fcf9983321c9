import TagPrompt.Prompt.Basic

/-! Weight-bracket text. A prompt is a comma-separated list of tags; `{` and `]` raise the level of
what follows, `}` and `[` lower it. A tag has the level at its last character that is no bracket,
blanks included. Levels are counted in 32 bits and wrap around at their ends; counting with overflow
checks instead gives nothing for a text that takes the count there. -/

namespace TagPrompt.Prompt

/-- What becomes of the text after the last comma. -/
inductive LastSegment
  | kept
  | dropped
  deriving DecidableEq, Repr

/-- By how much a bracket changes the level; no other character changes it. -/
def levelChange? (c : Char) : Option Int :=
  if c = '{' ∨ c = ']' then some 1
  else if c = '}' ∨ c = '[' then some (-1)
  else none

/-- The segments between the commas, untrimmed and without brackets, each with its level. `held` is
the current segment so far, newest character first, and `heldLevel` the level of its newest
character, zero for none. -/
def segments (level : Int32) (held : Text) (heldLevel : Int32) : Text → List Tag
  | [] => [⟨held.reverse, heldLevel⟩]
  | c :: rest =>
      if c = ',' then ⟨held.reverse, heldLevel⟩ :: segments level [] 0 rest
      else
        match levelChange? c with
        | some change => segments (level + .ofInt change) held heldLevel rest
        | none => segments level (c :: held) level rest

/-- A segment as a tag: its text is trimmed, and a blank segment is none. -/
def tagOfSegment? (segment : Tag) : Option Tag :=
  let text := Text.trim segment.text
  if text.isEmpty then none else some ⟨text, segment.level⟩

def parse (text : Text) (last : LastSegment) : Prompt :=
  let all := segments 0 [] 0 text
  (match last with
    | .kept => all
    | .dropped => all.dropLast).filterMap tagOfSegment?

/-! ### Overflow checks -/

/-- Whether no bracket of a text takes the level beyond the ends of its 32 bits. -/
def countable (level : Int32) : Text → Bool
  | [] => true
  | c :: rest =>
      match levelChange? c with
      | some change =>
          let next := level + .ofInt change
          next.toInt = level.toInt + change && countable next rest
      | none => countable level rest

/-- Parsing with overflow checks: there is no result where counting overflows. -/
def parse? (text : Text) (last : LastSegment) : Option Prompt :=
  if countable 0 text then some (parse text last) else none

end TagPrompt.Prompt
