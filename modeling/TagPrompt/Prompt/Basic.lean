import TagPrompt.Text.Basic

/-! Tags with a weight level, prompts as lists of tags, and the operations that add and take away
tags. Every operation that takes away keeps the order and the levels of what stays. -/

namespace TagPrompt

/-- A tag and its net bracket level: positive is up-weighted, negative down-weighted. -/
structure Tag where
  text : Text
  level : Int32
  deriving DecidableEq, Repr, Inhabited

abbrev Prompt := List Tag

namespace Prompt

/-- The texts in order, without levels. -/
def texts (p : Prompt) : List Text := p.map Tag.text

def mentions (p : Prompt) (text : Text) : Bool := p.any fun tag => tag.text == text

def push (p : Prompt) (tag : Tag) : Prompt := p ++ [tag]

/-- Keeps the tags whose texts are listed. -/
def keepListed (p : Prompt) (listed : List Text) : Prompt :=
  p.filter fun tag => listed.contains tag.text

/-- The tags whose texts neither occur before them nor in `seen`. -/
def distinctFrom (seen : List Text) : Prompt → Prompt
  | [] => []
  | tag :: rest =>
      if seen.contains tag.text then distinctFrom seen rest
      else tag :: distinctFrom (tag.text :: seen) rest

def distinct (p : Prompt) : Prompt := distinctFrom [] p

/-- Deletes the first tag with this text, if there is one. -/
def removeOne (p : Prompt) (text : Text) : Prompt := p.eraseP fun tag => tag.text == text

/-- For each listed text in turn, deletes the first tag that still has it. -/
def remove (p : Prompt) (listed : List Text) : Prompt := listed.foldl removeOne p

def mapText (f : Text → Text) (p : Prompt) : Prompt :=
  p.map fun tag => { tag with text := f tag.text }

/-! ### Extraction -/

/-- Whether a tag answers to an entry, with `lead` in front of its text or without. -/
def answers (lead entry : Text) (tag : Tag) : Bool := Text.strip lead tag.text == entry

/-- Copies the tags that answer to the entries, entry by entry. -/
def copyOut (lead : Text) (entries : List Text) (p : Prompt) : Prompt :=
  entries.flatMap fun entry => p.filter (answers lead entry)

/-- Moves the tags that answer to the entries out of a prompt, entry by entry: the tags taken and
the tags left. -/
def moveOut (lead : Text) : List Text → Prompt → Prompt × Prompt
  | [], p => ([], p)
  | entry :: entries, p =>
      let (taken, left) := p.partition (answers lead entry)
      let (more, rest) := moveOut lead entries left
      (taken ++ more, rest)

end Prompt
end TagPrompt
