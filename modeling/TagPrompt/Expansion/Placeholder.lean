import TagPrompt.Expansion.Group
import TagPrompt.Wildcards

/-! Placeholders. A placeholder is two underscores, as few characters of the line as possible, and
two underscores; the leftmost comes first and no two overlap. The placeholders of a text are found
once, before any is replaced, and replaced from the last to the first, so lines put in are never
searched and no replacement moves a placeholder that is still to come. The expansion of a whole text
is that of its groups, then of its placeholders, then of the groups that the lines put in have
brought along. -/

namespace TagPrompt

/-- The characters from `start` up to `stop`. -/
structure Span where
  start : Nat
  stop : Nat
  deriving DecidableEq, Repr

namespace Span

/-- The part of a text that lies in the span. -/
def cut (span : Span) (text : Text) : Text := (text.drop span.start).take (span.stop - span.start)

def splice (span : Span) (replacement text : Text) : Text :=
  text.take span.start ++ replacement ++ text.drop span.stop

end Span

/-- The number of characters before the next two underscores of the line. -/
def lengthToClosing? : Text → Option Nat
  | [] => none
  | c :: rest =>
      if c = '_' ∧ rest.head? = some '_' then some 0
      else if c = '\n' then none
      else (lengthToClosing? rest).map (· + 1)

/-- The spans of the placeholders of a text that begins at `position`. -/
def placeholdersFrom (position : Nat) (text : Text) : List Span :=
  match text with
  | '_' :: '_' :: rest =>
      match lengthToClosing? rest with
      | some n =>
          ⟨position, position + n + 4⟩ :: placeholdersFrom (position + n + 4) (rest.drop (n + 2))
      | none => placeholdersFrom (position + 1) ('_' :: rest)
  | _ :: rest => placeholdersFrom (position + 1) rest
  | [] => []
termination_by text.length
decreasing_by
  all_goals simp only [List.length_cons, List.length_drop]; omega

/-- The spans of the placeholders of a text, in order. -/
def placeholders (text : Text) : List Span := placeholdersFrom 0 text

/-- Puts a line of its list in place of a placeholder; one without a line stays. -/
def fillPlaceholder {σ : Type} [ChoiceSource σ] (wildcards : Wildcards) (span : Span)
    (state : Text × σ) : Text × σ :=
  match wildcards.choose (span.cut state.1) state.2 with
  | (some line, s) => (span.splice line state.1, s)
  | (none, s) => (state.1, s)

/-- Replaces the placeholders of a text, the last one first. -/
def expandPlaceholders {σ : Type} [ChoiceSource σ] (wildcards : Wildcards) (text : Text) (s : σ) :
    Text × σ :=
  (placeholders text).foldr (fillPlaceholder wildcards) (text, s)

/-- Expands groups, placeholders and groups again. -/
def expand {σ : Type} [ChoiceSource σ] (wildcards : Wildcards) (text : Text) (s : σ) : Text × σ :=
  let (text, s) := expandGroups text s
  let (text, s) := expandPlaceholders wildcards text s
  expandGroups text s

end TagPrompt
