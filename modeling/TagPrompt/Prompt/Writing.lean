import TagPrompt.Prompt.Basic

/-! Prompts as weight-bracket text. Brackets are opened and closed between neighbouring tags of
different levels, as few as the difference needs and none after the last tag, so the text is
balanced only when the last tag has level zero. The text is built from its end: all functions here
take what is written so far with the newest character first. -/

namespace TagPrompt.Prompt

def writeSeparator (written : Text) : Text := ' ' :: ',' :: written

/-- Takes a separator at the end back. -/
def dropSeparator : Text → Text
  | ' ' :: ',' :: written => written
  | written => written

/-- Writes an opening bracket, separated from anything but nothing and its own kind. -/
def openGroup (bracket : Char) (written : Text) : Text :=
  match written with
  | [] => [bracket]
  | c :: _ => if c = bracket then bracket :: written else bracket :: writeSeparator written

/-- Writes a separator if a closing bracket of this kind stands at the end. -/
def separateAfter (bracket : Char) (written : Text) : Text :=
  if written.head? = some bracket then writeSeparator written else written

/-- Raises the level: closes lowering groups up to level zero, then opens raising ones. -/
def rise (level target : Int) (written : Text) : Text :=
  let closing := (min target 0 - level).toNat
  let opening := (target - max level 0).toNat
  separateAfter ']' (Nat.repeat (openGroup '{') opening (List.replicate closing ']' ++ written))

/-- Lowers the level: closes raising groups down to level zero, then opens lowering ones. -/
def fall (level target : Int) (written : Text) : Text :=
  let closing := (level - max target 0).toNat
  let opening := (min level 0 - target).toNat
  separateAfter '}' (Nat.repeat (openGroup '[') opening (List.replicate closing '}' ++ written))

/-- Moves from one level to another; staying at a level writes nothing. -/
def moveTo (level target : Int) (written : Text) : Text :=
  if target = level then written
  else if level < target then rise level target (dropSeparator written)
  else fall level target (dropSeparator written)

/-- Writes the remaining tags, starting at a level. -/
def writeFrom (level : Int) (written : Text) : Prompt → Text
  | [] => written
  | [tag] => tag.text.reverse ++ moveTo level tag.level.toInt written
  | tag :: next :: rest =>
      writeFrom tag.level.toInt
        (writeSeparator (tag.text.reverse ++ moveTo level tag.level.toInt written)) (next :: rest)

def render (p : Prompt) : Text := (writeFrom 0 [] p).reverse

end TagPrompt.Prompt
