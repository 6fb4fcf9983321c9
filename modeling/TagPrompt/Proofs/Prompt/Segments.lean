import Mathlib.Data.List.DropRight
import TagPrompt.Proofs.Prompt.Appending
import TagPrompt.Proofs.Prompt.Counting
import TagPrompt.Proofs.Text.Split
import TagPrompt.Search.Query

/-! What a weight-bracket text declares. Its segments lie between the commas. The text of a tag is
that of its segment without brackets and without blanks around it, and its level is what all
brackets of the text come to up to the last character of the segment that is no bracket. Reading
character by character, with the level carried along in 32 bits, gives the tags so declared. -/

namespace TagPrompt

/-- The query of a prompt is made from its texts. -/
theorem Query.ofPrompt_eq_of_texts {p q : Prompt} (h : p.texts = q.texts) :
    ofPrompt p = ofPrompt q := by
  have htexts : ∀ p : Prompt,
      ofPrompt p = p.texts.foldl (fun query text => query.addTag ⟨text, 0⟩) {} := by
    intro p
    rw [Prompt.texts, List.foldl_map]
    rfl
  rw [htexts, htexts, h]

namespace Prompt

/-! ### The declaration -/

def isBracket (c : Char) : Bool := c ∈ ['{', '}', '[', ']']

/-- A text without its brackets. -/
def unbracketed (text : Text) : Text := text.filter fun c => !isBracket c

/-- A text up to its last character that is no bracket. -/
def toLastLetter (text : Text) : Text := text.rdropWhile isBracket

/-- What segments declare: the texts of their tags, and what the brackets up to the last letter of
each come to. `before` is all that stands in front of the first of them. -/
def declared (before : Text) : List Text → List (Text × Int)
  | [] => []
  | segment :: segments =>
      let text := Text.trim (unbracketed segment)
      let rest := declared (before ++ segment ++ [',']) segments
      if text.isEmpty then rest else (text, netLevel (before ++ toLastLetter segment)) :: rest

/-- What a text declares, in each way to treat its last segment. -/
def declaredBy (text : Text) : LastSegment → List (Text × Int)
  | .kept => declared [] (Text.split ',' text)
  | .dropped => declared [] (Text.split ',' text).dropLast

/-- The tag of a declaration, its level counted in 32 bits. -/
def tagOf (declaration : Text × Int) : Tag := ⟨declaration.1, .ofInt declaration.2⟩

/-! ### Brackets -/

theorem levelChange?_eq_none_iff_isBracket {c : Char} :
    levelChange? c = none ↔ isBracket c = false := by
  rw [levelChange?_eq_none_iff, isBracket, decide_eq_false_iff_not]

theorem isBracket_of_levelChange? {c : Char} {change : Int} (h : levelChange? c = some change) :
    isBracket c = true := by
  rw [← Bool.not_eq_false, ← levelChange?_eq_none_iff_isBracket, h]
  exact Option.some_ne_none change

theorem unbracketed_eq_nil_iff {text : Text} :
    unbracketed text = [] ↔ ∀ c ∈ text, isBracket c = true := by
  simp [unbracketed]

theorem toLastLetter_eq_nil_iff {text : Text} :
    toLastLetter text = [] ↔ unbracketed text = [] := by
  rw [toLastLetter, List.rdropWhile_eq_nil_iff, unbracketed_eq_nil_iff]

theorem unbracketed_bracket {c : Char} (h : isBracket c = true) (text : Text) :
    unbracketed (c :: text) = unbracketed text := by
  simp [unbracketed, h]

theorem unbracketed_letter {c : Char} (h : isBracket c = false) (text : Text) :
    unbracketed (c :: text) = c :: unbracketed text := by
  simp [unbracketed, h]

theorem unbracketed_unbracketed (text : Text) :
    unbracketed (unbracketed text) = unbracketed text := by
  simp [unbracketed, List.filter_filter]

theorem toLastLetter_cons {c : Char} {text : Text}
    (h : isBracket c = false ∨ unbracketed text ≠ []) :
    toLastLetter (c :: text) = c :: toLastLetter text := by
  rw [← toLastLetter_eq_nil_iff.ne] at h
  simp only [toLastLetter, List.rdropWhile, List.reverse_cons, List.dropWhile_append,
    List.isEmpty_iff] at *
  split_ifs with hbrackets
  · have hletter : isBracket c = false := by simpa [hbrackets] using h
    simp [hbrackets, hletter]
  · simp

/-! ### Reading with the level in hand -/

/-- Segments without their brackets, each with the level of its last letter, zero for none. -/
def unbracketedFrom (before : Text) : List Text → List Tag
  | [] => []
  | segment :: segments =>
      let level :=
        if unbracketed segment = [] then 0 else .ofInt (netLevel (before ++ toLastLetter segment))
      ⟨unbracketed segment, level⟩ :: unbracketedFrom (before ++ segment ++ [',']) segments

/-- The segment being read gets what is left of it, and the level of its last letter if that is
still to come. What was read in front of it counts through its net level only. -/
theorem segments_eq (before held : Text) (heldLevel : Int32) {text segment : Text}
    {segments' : List Text} (h : Text.split ',' text = segment :: segments') :
    segments (.ofInt (netLevel before)) held heldLevel text =
      ⟨held.reverse ++ unbracketed segment,
        if unbracketed segment = [] then heldLevel
        else .ofInt (netLevel (before ++ toLastLetter segment))⟩ ::
        unbracketedFrom (before ++ segment ++ [',']) segments' := by
  induction text generalizing before held heldLevel segment segments' with
  | nil =>
      obtain ⟨rfl, rfl⟩ : [] = segment ∧ [] = segments' := by simpa [Text.split] using h
      simp [segments, unbracketed, unbracketedFrom]
  | cons c rest ih =>
      obtain ⟨next, others, hrest⟩ : ∃ next others, Text.split ',' rest = next :: others :=
        List.exists_cons_of_ne_nil (Text.split_ne_nil ',' rest)
      by_cases hcomma : c = ','
      · subst hcomma
        rw [Text.split_separator, hrest] at h
        obtain ⟨rfl, rfl⟩ := List.cons.inj h
        have hlevel : netLevel (before ++ [',']) = netLevel before :=
          netLevel_of_unmarked (by decide) before
        have hnext := ih (before ++ [',']) [] 0 hrest
        rw [hlevel] at hnext
        simp [segments_comma, hnext, unbracketed, unbracketedFrom]
      · rw [Text.split_cons hcomma hrest] at h
        obtain ⟨rfl, rfl⟩ := List.cons.inj h
        have hbefore : before ++ (c :: next) = before ++ [c] ++ next := by simp
        cases hchange : levelChange? c with
        | some change =>
            have hbracket := isBracket_of_levelChange? hchange
            rw [segments_bracket _ _ _ hchange, ← Int32.ofInt_add,
              ← netLevel_of_levelChange? hchange,
              ih (before ++ [c]) held heldLevel hrest, unbracketed_bracket hbracket, hbefore]
            congr 2
            split_ifs with hnone
            · rfl
            · rw [toLastLetter_cons (Or.inr hnone), List.append_assoc, List.singleton_append]
        | none =>
            have hletter := levelChange?_eq_none_iff_isBracket.mp hchange
            have hmark := not_mem_marks_iff.mpr ⟨hcomma, hchange⟩
            rw [segments_unmarked _ _ _ hmark, ← netLevel_of_unmarked hchange,
              ih (before ++ [c]) (c :: held) _ hrest, unbracketed_letter hletter,
              if_neg (List.cons_ne_nil c _), toLastLetter_cons (Or.inl hletter), hbefore]
            congr 2
            · simp
            · split_ifs with hnone
              · rw [toLastLetter_eq_nil_iff.mpr hnone]
              · rw [List.append_assoc, List.singleton_append]

theorem segments_eq_unbracketedFrom (text : Text) :
    segments 0 [] 0 text = unbracketedFrom [] (Text.split ',' text) := by
  obtain ⟨segment, others, h⟩ := List.exists_cons_of_ne_nil (Text.split_ne_nil ',' text)
  rw [h]
  exact segments_eq [] [] 0 h

theorem filterMap_unbracketedFrom (before : Text) (segments : List Text) :
    (unbracketedFrom before segments).filterMap tagOfSegment? =
      (declared before segments).map tagOf := by
  induction segments generalizing before with
  | nil => rfl
  | cons segment segments ih =>
      rw [unbracketedFrom, declared, List.filterMap_cons, ih]
      simp only [tagOfSegment?]
      by_cases hblank : (Text.trim (unbracketed segment)).isEmpty
      · rw [if_pos hblank, if_pos hblank]
      · have hsegment : unbracketed segment ≠ [] := by
          intro hnone
          rw [hnone] at hblank
          exact hblank rfl
        rw [if_neg hblank, if_neg hblank, if_neg hsegment]
        rfl

theorem dropLast_unbracketedFrom (before : Text) (segments : List Text) :
    (unbracketedFrom before segments).dropLast = unbracketedFrom before segments.dropLast := by
  induction segments generalizing before with
  | nil => rfl
  | cons segment segments ih =>
      cases segments with
      | nil => rfl
      | cons next segments =>
          have hrest : unbracketedFrom (before ++ segment ++ [',']) (next :: segments) ≠ [] :=
            List.cons_ne_nil _ _
          rw [unbracketedFrom, List.dropLast_cons_of_ne_nil hrest, ih, List.dropLast_cons_cons,
            unbracketedFrom]

/-! ### Texts without brackets -/

theorem split_unbracketed (text : Text) :
    Text.split ',' (unbracketed text) = (Text.split ',' text).map unbracketed := by
  induction text with
  | nil => rfl
  | cons c rest ih =>
      obtain ⟨segment, segments, hrest⟩ :=
        List.exists_cons_of_ne_nil (Text.split_ne_nil ',' rest)
      rw [hrest, List.map_cons] at ih
      by_cases hcomma : c = ','
      · subst hcomma
        rw [unbracketed_letter (by decide), Text.split_separator, ih, Text.split_separator, hrest]
        rfl
      · rw [Text.split_cons hcomma hrest, List.map_cons]
        cases hbracket : isBracket c with
        | true => rw [unbracketed_bracket hbracket, unbracketed_bracket hbracket, ih]
        | false =>
            rw [unbracketed_letter hbracket, unbracketed_letter hbracket, Text.split_cons hcomma ih]

/-- The texts that segments declare do not depend on what stands in front of them. -/
theorem texts_declared (before : Text) (segments : List Text) :
    (declared before segments).map Prod.fst =
      (segments.map fun segment => Text.trim (unbracketed segment)).filter fun t => !t.isEmpty := by
  induction segments generalizing before with
  | nil => rfl
  | cons segment segments ih =>
      simp only [declared, List.map_cons, List.filter_cons]
      split_ifs with hblank hshown hshown
      · simp_all
      · exact ih _
      · rw [List.map_cons, ih]
      · simp_all

/-! ### Both ways to treat the last segment -/

variable {text : Text} {last : LastSegment} {p : Prompt}

theorem parse_eq (text : Text) (last : LastSegment) :
    parse text last = (declaredBy text last).map tagOf := by
  cases last with
  | kept =>
      change (segments 0 [] 0 text).filterMap tagOfSegment? = _
      rw [segments_eq_unbracketedFrom, filterMap_unbracketedFrom, declaredBy]
  | dropped =>
      change (segments 0 [] 0 text).dropLast.filterMap tagOfSegment? = _
      rw [segments_eq_unbracketedFrom, dropLast_unbracketedFrom, filterMap_unbracketedFrom,
        declaredBy]

theorem parse_comma (text : Text) : parse (text ++ [',']) .dropped = parse text .kept := by
  obtain ⟨level, hsegments⟩ := exists_segments_comma 0 [] 0 text []
  change (segments 0 [] 0 (text ++ [','])).dropLast.filterMap tagOfSegment? = _
  rw [hsegments, segments, List.dropLast_concat]
  rfl

theorem texts_map_tagOf (declarations : List (Text × Int)) :
    texts (declarations.map tagOf) = declarations.map Prod.fst :=
  List.map_map

theorem texts_parse_unbracketed (text : Text) (last : LastSegment) :
    (parse (unbracketed text) last).texts = (parse text last).texts := by
  have hsegments : ∀ segments : List Text,
      (declared [] (segments.map unbracketed)).map Prod.fst =
        (declared [] segments).map Prod.fst := by
    intro segments
    simp only [texts_declared, List.map_map, Function.comp_def, unbracketed_unbracketed]
  rw [parse_eq, parse_eq, texts_map_tagOf, texts_map_tagOf]
  cases last with
  | kept => rw [declaredBy, declaredBy, split_unbracketed, hsegments]
  | dropped => rw [declaredBy, declaredBy, split_unbracketed, ← List.map_dropLast, hsegments]

/-! ### Levels that do not overflow -/

theorem declared_of_isPrefix {segments segments' : List Text} (h : segments <+: segments')
    (before : Text) : declared before segments <+: declared before segments' := by
  induction segments generalizing before segments' with
  | nil => exact List.nil_prefix
  | cons segment segments ih =>
      obtain ⟨behind, rfl⟩ := h
      have hrest := ih (List.prefix_append segments behind) (before ++ segment ++ [','])
      rw [List.cons_append, declared, declared]
      split_ifs with hblank
      · exact hrest
      · exact List.cons_prefix_cons.mpr ⟨rfl, hrest⟩

/-- A declared level is what the brackets up to some place of the text come to. -/
theorem exists_front_of_mem_declared {before : Text} {segments : List Text}
    {declaration : Text × Int} (h : declaration ∈ declared before segments) :
    ∃ front, front <+: before ++ Text.join [','] segments ∧ declaration.2 = netLevel front := by
  induction segments generalizing before with
  | nil => exact absurd h List.not_mem_nil
  | cons segment segments ih =>
      have hstart : declaration = (Text.trim (unbracketed segment),
          netLevel (before ++ toLastLetter segment)) ∨
          declaration ∈ declared (before ++ segment ++ [',']) segments := by
        rw [declared] at h
        split_ifs at h with hblank
        · exact .inr h
        · exact List.mem_cons.mp h
      rcases hstart with rfl | hrest
      · refine ⟨before ++ toLastLetter segment, ?_, rfl⟩
        have hletters : toLastLetter segment <+: segment := List.rdropWhile_prefix _ segment
        have hsegment : segment <+: Text.join [','] (segment :: segments) := by
          cases segments with
          | nil => exact List.prefix_rfl
          | cons next segments =>
              rw [Text.join_cons_cons, List.append_assoc]
              exact List.prefix_append segment _
        exact (List.prefix_append_right_inj before).mpr (hletters.trans hsegment)
      · obtain ⟨front, hfront, hlevel⟩ := ih hrest
        cases segments with
        | nil => exact absurd hrest List.not_mem_nil
        | cons next segments =>
            refine ⟨front, ?_, hlevel⟩
            rwa [Text.join_cons_cons, ← List.append_assoc, ← List.append_assoc]

theorem exists_front_of_mem_declaredBy {declaration : Text × Int}
    (h : declaration ∈ declaredBy text last) :
    ∃ front, front <+: text ∧ declaration.2 = netLevel front := by
  have hall : declaration ∈ declared [] (Text.split ',' text) := by
    cases last with
    | kept => exact h
    | dropped => exact (declared_of_isPrefix (List.dropLast_prefix _) []).subset h
  obtain ⟨front, hfront, hlevel⟩ := exists_front_of_mem_declared hall
  exact ⟨front, by rwa [List.nil_append, Text.join_split] at hfront, hlevel⟩

/-- Where counting does not overflow, the levels are the declared numbers. -/
theorem declaredBy_of_parse? (h : parse? text last = some p) :
    p.map (fun tag => (tag.text, tag.level.toInt)) = declaredBy text last := by
  obtain ⟨hcount, rfl⟩ := parse?_eq_some_iff.mp h
  have hlevel : ∀ declaration ∈ declaredBy text last,
      ((tagOf declaration).text, (tagOf declaration).level.toInt) = declaration := by
    intro declaration hdeclared
    obtain ⟨front, hfront, hnumber⟩ := exists_front_of_mem_declaredBy hdeclared
    have hfits : IsLevel declaration.2 := hnumber ▸ countable_zero_iff.mp hcount front hfront
    exact Prod.ext rfl (toInt_ofInt_iff.mpr hfits)
  rw [parse_eq, List.map_map]
  exact (List.map_congr_left hlevel).trans (List.map_id _)

end Prompt
end TagPrompt
