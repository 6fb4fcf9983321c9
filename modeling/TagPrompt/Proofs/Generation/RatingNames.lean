import Mathlib.Data.List.Basic
import Mathlib.Data.List.Forall2
import TagPrompt.Generation.Ratings
import TagPrompt.Proofs.Prompt.Arranging
import TagPrompt.Proofs.Search.QueryTags
import TagPrompt.Proofs.Text.Split

/-! Ratings in searches. The long name of a rating can be spelled with a space after the colon, and
an unwanted one with blanks between the mark and the name. The replacement of the space could strike
anywhere in a tag, but a long name has one colon only, so nothing becomes a long name unless it
spells one. Shortening before the query is made and shortening its tags are the same. -/

namespace TagPrompt

namespace Text

/-- Behind a first character that is no blank, a plain text can have blanks in front only. -/
theorem IsPlain.trim_behind {c : Char} {rest : Text} (h : IsPlain (c :: rest))
    (hc : isBlank c = false) : trim rest = trimStart rest := by
  have htrimmed := h.trimmed
  rw [trim_cons_of_not_blank hc] at htrimmed
  rw [trim, trimEnd_trimStart, List.cons_injective htrimmed]

/-! ### Replacing the first occurrence -/

/-- At most one occurrence is replaced. -/
theorem replaceFirst_cases {old : Text} (hold : old ≠ []) (new t : Text) :
    replaceFirst old new t = t ∨ ∃ front behind, t = front ++ old ++ behind ∧
      replaceFirst old new t = front ++ new ++ behind := by
  induction t with
  | nil =>
      left
      rw [replaceFirst, if_neg (by simpa using hold)]
  | cons c rest ih =>
      rw [replaceFirst]
      cases hafter : after? old (c :: rest) with
      | some behind => exact Or.inr ⟨[], behind, after?_eq_some_iff.mp hafter, rfl⟩
      | none =>
          rcases ih with hsame | ⟨front, behind, hrest, hreplaced⟩
          · exact Or.inl (congrArg (c :: ·) hsame)
          · exact Or.inr ⟨c :: front, behind, congrArg (c :: ·) hrest, congrArg (c :: ·) hreplaced⟩

end Text

/-! ### Spellings of a long name -/

/-- The long name, and the long name with a space after the colon. -/
def RatingNames.spellings (names : RatingNames) : List Text :=
  [names.long, "rating: ".toList ++ names.long.drop "rating:".length]

/-- Whether a text spells the long name of some rating. -/
def SpellsRating (text : Text) : Prop := ∃ names ∈ ratings, text ∈ names.spellings

/-- The short name of the rating that a tag spells, or the tag itself. -/
def shortName (tag : Text) : Text := (shortRating? tag).getD tag

/-- What a tag is shortened to: a long name to the short one, as it is or behind the mark and
blanks, and any other text to itself. -/
inductive Shortens : Text → Text → Prop
  | bare {names : RatingNames} {tag : Text} (hnames : names ∈ ratings)
      (htag : tag ∈ names.spellings) : Shortens tag names.short
  | marked {names : RatingNames} {tag blanks : Text} (hnames : names ∈ ratings)
      (htag : tag ∈ names.spellings) (hblanks : ∀ c ∈ blanks, Text.isBlank c = true) :
      Shortens (Query.unwantedMark :: (blanks ++ tag)) (Query.unwantedMark :: names.short)
  | other {text : Text} (hbare : ¬SpellsRating text)
      (hmarked : ∀ blanks tag, (∀ c ∈ blanks, Text.isBlank c = true) →
        text = Query.unwantedMark :: (blanks ++ tag) → ¬SpellsRating tag) :
      Shortens text text

variable {text tag short : Text} {names : RatingNames}

/-- The colon after the first word is the only one. -/
theorem RatingNames.long_eq (h : names ∈ ratings) :
    names.long = "rating".toList ++ ':' :: names.long.drop "rating:".length ∧
      ':' ∉ names.long.drop "rating:".length := by
  revert names
  decide

theorem shortRating?_of_mem_spellings (hnames : names ∈ ratings) (htag : tag ∈ names.spellings) :
    shortRating? tag = some names.short := by
  have hall : ∀ names ∈ ratings, ∀ tag ∈ names.spellings,
      shortRating? tag = some names.short := by decide
  exact hall names hnames tag htag

theorem trim_of_mem_spellings (hnames : names ∈ ratings) (htag : tag ∈ names.spellings) :
    Text.trim tag = tag := by
  have hall : ∀ names ∈ ratings, ∀ tag ∈ names.spellings, Text.trim tag = tag := by decide
  exact hall names hnames tag htag

theorem trimStart_of_mem_spellings (hnames : names ∈ ratings) (htag : tag ∈ names.spellings) :
    Text.trimStart tag = tag := by
  rw [← trim_of_mem_spellings hnames htag, Text.trimStart_trim]

theorem unwantedTag?_of_mem_spellings (hnames : names ∈ ratings) (htag : tag ∈ names.spellings) :
    Query.unwantedTag? tag = none := by
  have hall : ∀ names ∈ ratings, ∀ tag ∈ names.spellings, Query.unwantedTag? tag = none := by decide
  exact hall names hnames tag htag

theorem not_spelled_of_marked (rest : Text) : ¬SpellsRating (Query.unwantedMark :: rest) := by
  rintro ⟨names, hnames, htag⟩
  have hside := unwantedTag?_of_mem_spellings hnames htag
  rw [Query.unwantedTag?, if_pos rfl] at hside
  cases hside

theorem RatingNames.short_ne_nil (h : names ∈ ratings) : names.short ≠ [] := by
  revert names
  decide

theorem RatingNames.trim_short (h : names ∈ ratings) : Text.trim names.short = names.short := by
  revert names
  decide

theorem RatingNames.unwantedTag?_short (h : names ∈ ratings) :
    Query.unwantedTag? names.short = none := by
  revert names
  decide

theorem RatingNames.short_not_spelled (h : names ∈ ratings) : ¬SpellsRating names.short := by
  have hnone : ∀ names ∈ ratings, ∀ names' ∈ ratings, names.short ∉ names'.spellings := by decide
  rintro ⟨names', hnames', hshort⟩
  exact hnone names h names' hnames' hshort

theorem shortRating?_trimStart (tag : Text) :
    shortRating? (Text.trimStart tag) = shortRating? tag := by
  rw [shortRating?, compactRating, Text.trimStart_trimStart, ← compactRating, ← shortRating?]

/-- A tag that becomes a long name when the first space after the word rating is dropped is a
spelling of that name: as the long name has no other colon, nothing stands in front of the word. -/
theorem mem_spellings_of_compact (hnames : names ∈ ratings) (h : names.long = compactRating tag) :
    Text.trimStart tag ∈ names.spellings := by
  obtain ⟨hlong, hcolon⟩ := RatingNames.long_eq hnames
  have hspaced : "rating: ".toList ≠ [] := by decide
  rcases Text.replaceFirst_cases hspaced "rating:".toList (Text.trimStart tag) with
    hsame | ⟨front, behind, htag, hcompact⟩
  · rw [RatingNames.spellings, h, compactRating, hsame]
    exact List.mem_cons_self
  · have hsplit : "rating".toList ++ ':' :: names.long.drop "rating:".length =
        (front ++ "rating".toList) ++ ':' :: behind := by
      calc _
        _ = compactRating tag := hlong.symm.trans h
        _ = front ++ "rating:".toList ++ behind := hcompact
        _ = _ := by simp
    obtain ⟨hfront, -, hbehind⟩ :=
      (List.append_cons_inj_of_notMem (by decide) hcolon).mp hsplit
    have hnil : front = [] := List.self_eq_append_left.mp hfront
    rw [htag, hnil, ← hbehind, RatingNames.spellings]
    simp

theorem shortRating?_eq_some_iff :
    shortRating? tag = some short ↔
      ∃ names ∈ ratings, Text.trimStart tag ∈ names.spellings ∧ names.short = short := by
  constructor
  · intro h
    obtain ⟨names, hfind, hshort⟩ := Option.map_eq_some_iff.mp h
    have hnames := List.mem_of_find?_eq_some hfind
    have hlong : names.long = compactRating tag := eq_of_beq (List.find?_some hfind :)
    exact ⟨names, hnames, mem_spellings_of_compact hnames hlong, hshort⟩
  · rintro ⟨names, hnames, htag, rfl⟩
    rw [← shortRating?_trimStart, shortRating?_of_mem_spellings hnames htag]

theorem shortRating?_eq_none_iff :
    shortRating? tag = none ↔ ¬SpellsRating (Text.trimStart tag) := by
  rw [Option.eq_none_iff_forall_ne_some]
  constructor
  · rintro h ⟨names, hnames, htag⟩
    exact h names.short (shortRating?_eq_some_iff.mpr ⟨names, hnames, htag, rfl⟩)
  · intro h short hshort
    obtain ⟨names, hnames, htag, -⟩ := shortRating?_eq_some_iff.mp hshort
    exact h ⟨names, hnames, htag⟩

theorem shortName_of_mem_spellings (hnames : names ∈ ratings) (htag : tag ∈ names.spellings) :
    shortName tag = names.short := by
  rw [shortName, shortRating?_of_mem_spellings hnames htag, Option.getD_some]

theorem shortName_of_not_spelled (h : ¬SpellsRating tag) (htrim : Text.trimStart tag = tag) :
    shortName tag = tag := by
  rw [shortName, shortRating?_eq_none_iff.mpr (by rwa [htrim]), Option.getD_none]

theorem shortName_not_spelled (tag : Text) : ¬SpellsRating (shortName tag) := by
  cases hshort : shortRating? tag with
  | some short =>
      obtain ⟨names, hnames, -, rfl⟩ := shortRating?_eq_some_iff.mp hshort
      rw [shortName, hshort, Option.getD_some]
      exact RatingNames.short_not_spelled hnames
  | none =>
      rw [shortName, hshort, Option.getD_none]
      rintro ⟨names, hnames, htag⟩
      rw [shortRating?_of_mem_spellings hnames htag] at hshort
      cases hshort

/-! ### Tags of a search -/

theorem shortens_shortenRating (h : text.IsPlain) : Shortens text (shortenRating text) := by
  cases text with
  | nil => exact absurd rfl h.nonempty
  | cons c rest =>
      rw [shortenRating]
      by_cases hc : c = Query.unwantedMark
      · subst hc
        rw [if_pos rfl]
        cases hshort : shortRating? rest with
        | some short =>
            obtain ⟨names, hnames, htag, rfl⟩ := shortRating?_eq_some_iff.mp hshort
            have hrest : rest.takeWhile Text.isBlank ++ Text.trimStart rest = rest :=
              List.takeWhile_append_dropWhile
            rw [← hrest]
            exact .marked hnames htag fun c hc => List.mem_takeWhile_imp hc
        | none =>
            refine .other (not_spelled_of_marked rest) ?_
            rintro blanks tag hblanks heq ⟨names, hnames, htag⟩
            have htrim : Text.trimStart rest = tag := by
              rw [List.cons_injective heq, Text.trimStart, List.dropWhile_append_of_pos hblanks]
              exact trimStart_of_mem_spellings hnames htag
            exact shortRating?_eq_none_iff.mp hshort (htrim ▸ ⟨names, hnames, htag⟩)
      · rw [if_neg hc]
        cases hshort : shortRating? (c :: rest) with
        | some short =>
            obtain ⟨names, hnames, htag, rfl⟩ := shortRating?_eq_some_iff.mp hshort
            rw [h.trimStart_eq] at htag
            exact .bare hnames htag
        | none =>
            refine .other ?_ fun blanks tag _ heq => absurd (List.cons_eq_cons.mp heq).1 hc
            rw [← h.trimStart_eq]
            exact shortRating?_eq_none_iff.mp hshort

namespace Query

variable {p : Prompt}

/-- Shortening a tag of a search shortens what the query names: a mark hides a spelling from
neither, as both look behind the blanks after it. -/
theorem unwantedTag?_of_shortens {text' : Text} (h : Shortens text text') (hplain : text.IsPlain) :
    unwantedTag? text' = (unwantedTag? text).map shortName := by
  cases h with
  | bare hnames htag =>
      rw [unwantedTag?_of_mem_spellings hnames htag]
      exact RatingNames.unwantedTag?_short hnames
  | marked hnames htag hblanks =>
      rw [unwantedTag?, unwantedTag?, if_pos rfl, if_pos rfl, RatingNames.trim_short hnames,
        Text.trim_append_of_blank_front hblanks, trim_of_mem_spellings hnames htag,
        Option.map_some, shortName_of_mem_spellings hnames htag]
  | other hbare hmarked =>
      cases text with
      | nil => rfl
      | cons c rest =>
          rw [unwantedTag?]
          split_ifs with hc
          · have hrest : rest = rest.takeWhile Text.isBlank ++ Text.trim rest := by
              rw [hplain.trim_behind (by rw [hc]; decide)]
              exact List.takeWhile_append_dropWhile.symm
            have hnone : ¬SpellsRating (Text.trim rest) :=
              hmarked _ _ (fun c hc => List.mem_takeWhile_imp hc) (by rw [hc, ← hrest])
            rw [Option.map_some, shortName_of_not_spelled hnone (Text.trimStart_trim rest)]
          · rfl

theorem shortenRating_of_wanted (h : unwantedTag? text = none) :
    shortenRating text = shortName text := by
  cases text with
  | nil => rfl
  | cons c rest =>
      have hc : c ≠ unwantedMark := by
        rintro rfl
        rw [unwantedTag?, if_pos rfl] at h
        cases h
      rw [shortenRating, if_neg hc, shortName]

theorem texts_shortenRatings (p : Prompt) :
    p.shortenRatings.map Tag.text = (p.map Tag.text).map shortenRating := by
  rw [Prompt.shortenRatings, Prompt.mapText, List.map_map, List.map_map]
  rfl

theorem wantedBy_shortenRatings (h : p.IsPlain) :
    wantedBy p.shortenRatings = (wantedBy p).map shortName := by
  have hplain : ∀ text ∈ p.map Tag.text, text.IsPlain := List.forall_mem_map.mpr h
  have hside : ∀ text ∈ p.map Tag.text,
      (unwantedTag? (shortenRating text)).isNone = (unwantedTag? text).isNone := by
    intro text htext
    have hshortens := shortens_shortenRating (hplain text htext)
    rw [unwantedTag?_of_shortens hshortens (hplain text htext), Option.isNone_map]
  calc wantedBy p.shortenRatings
    _ = ((p.map Tag.text).filter fun text =>
          (unwantedTag? (shortenRating text)).isNone).map shortenRating := by
        rw [wantedBy, texts_shortenRatings, List.filter_map]
        rfl
    _ = (wantedBy p).map shortenRating := by rw [List.filter_congr hside, wantedBy]
    _ = (wantedBy p).map shortName := by
        apply List.map_congr_left
        intro text htext
        have hwanted := (List.mem_filter.mp htext).2
        exact shortenRating_of_wanted (Option.isNone_iff_eq_none.mp hwanted)

theorem unwantedBy_shortenRatings (h : p.IsPlain) :
    unwantedBy p.shortenRatings = (unwantedBy p).map shortName := by
  have hplain : ∀ text ∈ p.map Tag.text, text.IsPlain := List.forall_mem_map.mpr h
  rw [unwantedBy, texts_shortenRatings, List.filterMap_map, unwantedBy, List.map_filterMap]
  exact List.filterMap_congr fun text htext =>
    unwantedTag?_of_shortens (shortens_shortenRating (hplain text htext)) (hplain text htext)

/-- The query of a shortened prompt names the short names of what the prompt itself names. -/
theorem ofPrompt_shortenRatings (h : p.IsPlain) :
    ofPrompt p.shortenRatings =
      ofTags ((wantedBy p).map shortName) ((unwantedBy p).map shortName) := by
  rw [ofPrompt_eq, wantedBy_shortenRatings h, unwantedBy_shortenRatings h]

theorem short_mem_wanted (h : p.IsPlain) (hnames : names ∈ ratings)
    (htag : tag ∈ names.spellings) (hwanted : tag ∈ wantedBy p) :
    names.short ∈ (ofPrompt p.shortenRatings).wanted := by
  have hshort : names.short ∈ (wantedBy p).map shortName :=
    List.mem_map.mpr ⟨tag, hwanted, shortName_of_mem_spellings hnames htag⟩
  rw [ofPrompt_shortenRatings h]
  exact mem_wanted_ofTags.mpr ⟨hshort, RatingNames.short_ne_nil hnames⟩

theorem short_mem_unwanted (h : p.IsPlain) (hnames : names ∈ ratings)
    (htag : tag ∈ names.spellings) (hunwanted : tag ∈ unwantedBy p) :
    names.short ∈ (ofPrompt p.shortenRatings).unwanted := by
  have hshort : names.short ∈ (unwantedBy p).map shortName :=
    List.mem_map.mpr ⟨tag, hunwanted, shortName_of_mem_spellings hnames htag⟩
  rw [ofPrompt_shortenRatings h]
  exact mem_unwanted_ofTags.mpr ⟨hshort, RatingNames.short_ne_nil hnames⟩

theorem not_spelled_of_mem (h : p.IsPlain)
    (htag : tag ∈ (ofPrompt p.shortenRatings).wanted ++ (ofPrompt p.shortenRatings).unwanted) :
    ¬SpellsRating tag := by
  rw [ofPrompt_shortenRatings h, List.mem_append, mem_wanted_ofTags, mem_unwanted_ofTags] at htag
  rcases htag with ⟨htag, -⟩ | ⟨htag, -⟩
  all_goals
    obtain ⟨named, -, rfl⟩ := List.mem_map.mp htag
    exact shortName_not_spelled named

end Query

/-- **Searches name ratings shortly.** No tag of the query of a search text spells the long name of
a rating. A tag that spells one gets the short name on its own side of the query, and in the prompt
that was read, whose other tags stay as they are, as many as before and at their levels. -/
theorem searches_name_ratings_shortly (text : Text) (last : Prompt.LastSegment) :
    let p := Prompt.parse text last
    let q := Query.ofPrompt p.shortenRatings
    (∀ tag ∈ q.wanted ++ q.unwanted, ¬SpellsRating tag) ∧
      (∀ names ∈ ratings, ∀ tag ∈ names.spellings,
        (tag ∈ Query.wantedBy p → names.short ∈ q.wanted) ∧
          (tag ∈ Query.unwantedBy p → names.short ∈ q.unwanted)) ∧
      List.Forall₂ (fun tag tag' => tag'.level = tag.level ∧ Shortens tag.text tag'.text)
        p p.shortenRatings := by
  intro p q
  have hplain : p.IsPlain := Prompt.isPlain_parse text last
  refine ⟨fun tag htag => Query.not_spelled_of_mem hplain htag, fun names hnames tag htag =>
    ⟨Query.short_mem_wanted hplain hnames htag, Query.short_mem_unwanted hplain hnames htag⟩, ?_⟩
  refine List.forall₂_map_right_iff.mpr (List.forall₂_same.mpr fun tag htag => ⟨rfl, ?_⟩)
  exact shortens_shortenRating (hplain tag htag)

/-- A space after the colon, blanks behind the mark, and one space too many. -/
example :
    let text := "rating: general, ~  \x7brating:explicit\x7d, rating:  sensitive".toList
    Query.ofPrompt (Prompt.parse text .kept).shortenRatings =
      ⟨["rating:g".toList, "rating:  sensitive".toList], ["rating:e".toList]⟩ := by
  decide

end TagPrompt
