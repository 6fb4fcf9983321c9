import TagPrompt.Prompt.Basic

/-! Search queries: the tags a prompt must have and those it must not have. -/

namespace TagPrompt

/-- Wanted and unwanted tags, in the order they were first named; neither list holds an empty tag or
a tag twice. -/
structure Query where
  wanted : List Text := []
  unwanted : List Text := []
  deriving DecidableEq, Repr, Inhabited

namespace Query

def unwantedMark : Char := '~'

/-- Adds a tag at the end, unless it is empty or there already. -/
def addUnique (tags : List Text) (tag : Text) : List Text :=
  if tag.isEmpty || tags.contains tag then tags else tags ++ [tag]

def want (q : Query) (tag : Text) : Query := { q with wanted := addUnique q.wanted tag }

def shun (q : Query) (tag : Text) : Query := { q with unwanted := addUnique q.unwanted tag }

/-- The query that names these tags. -/
def ofTags (wanted unwanted : List Text) : Query :=
  unwanted.foldl shun (wanted.foldl want {})

/-- Names the tag of a search text: one that begins with the mark is unwanted without it. -/
def addTag (q : Query) (tag : Tag) : Query :=
  match tag.text with
  | [] => q.want []
  | c :: rest => if c = unwantedMark then q.shun (Text.trim rest) else q.want tag.text

/-- The query of a parsed search text; levels do not matter. -/
def ofPrompt (p : Prompt) : Query := p.foldl addTag {}

/-- Whether no tag is named. -/
def isEmpty (q : Query) : Bool := q.wanted.isEmpty && q.unwanted.isEmpty

/-- The name under which the answer to a query is remembered: sorted wanted tags, a bar, sorted
unwanted tags. -/
def key (q : Query) : Text :=
  Text.join [','] (Text.sorted q.wanted) ++ '|' :: Text.join [','] (Text.sorted q.unwanted)

end Query
end TagPrompt
