import TagPrompt.Proofs.Prompt.Segments
import TagPrompt.Proofs.Search.Validation
import TagPrompt.Proofs.Text.Split

/-! Search texts that list tags. What a search text names are its trimmed parts without brackets, so
a text that lists plain tags, with the mark in front of the unwanted ones, is as good as the two
lists: it makes the same query, whatever blanks and brackets it has besides and however the wanted
and the unwanted tags are mixed. -/

namespace TagPrompt

namespace Text

theorem comma_not_blank : isBlank ',' = false := by decide

/-- The segments that are not blank, trimmed. -/
def shown (segments : List Text) : List Text :=
  (segments.map trim).filter fun part => !part.isEmpty

theorem shown_cons_of_blank {blanks : Text} (h : ∀ c ∈ blanks, isBlank c = true)
    (segments : List Text) : shown (blanks :: segments) = shown segments := by
  rw [shown, List.map_cons, trim_of_blank h]
  rfl

theorem shown_cons {segment part : Text} (h : trim segment = part) (hpart : part ≠ [])
    (segments : List Text) : shown (segment :: segments) = part :: shown segments := by
  rw [shown, List.map_cons, h, List.filter_cons_of_pos (by simpa using hpart), ← shown]

theorem parts_join {segments : List Text} (h : ∀ segment ∈ segments, ',' ∉ segment) :
    parts (join [','] segments) = shown segments := by
  cases segments with
  | nil => rfl
  | cons segment segments => rw [parts, split_join h, shown]

end Text

/-- What a prompt is read from are the parts of its text without the brackets. -/
theorem Prompt.texts_parse_kept (text : Text) :
    (parse text .kept).texts = Text.parts (unbracketed text) := by
  rw [parse_eq, texts_map_tagOf, declaredBy, texts_declared, Text.parts, split_unbracketed,
    List.map_map]
  rfl

namespace Query

/-- Segments name wanted and unwanted tags, in order: each is a tag with blanks around it, or the
mark and a tag with blanks around both, or blank. -/
inductive Naming : (segments wanted unwanted : List Text) → Prop
  | nil : Naming [] [] []
  | blank {segments wanted unwanted : List Text} {blanks : Text}
      (hblanks : ∀ c ∈ blanks, Text.isBlank c = true) (h : Naming segments wanted unwanted) :
      Naming (blanks :: segments) wanted unwanted
  | want {segments wanted unwanted : List Text} {tag before behind : Text}
      (hbefore : ∀ c ∈ before, Text.isBlank c = true)
      (hbehind : ∀ c ∈ behind, Text.isBlank c = true) (h : Naming segments wanted unwanted) :
      Naming ((before ++ tag ++ behind) :: segments) (tag :: wanted) unwanted
  | shun {segments wanted unwanted : List Text} {tag before between behind : Text}
      (hbefore : ∀ c ∈ before, Text.isBlank c = true)
      (hbetween : ∀ c ∈ between, Text.isBlank c = true)
      (hbehind : ∀ c ∈ behind, Text.isBlank c = true) (h : Naming segments wanted unwanted) :
      Naming ((before ++ unwantedMark :: (between ++ tag ++ behind)) :: segments) wanted
        (tag :: unwanted)

/-- Without its brackets, a text is segments that name the tags, with commas between them. -/
def Lists (text : Text) (wanted unwanted : List Text) : Prop :=
  ∃ segments, Naming segments wanted unwanted ∧
    Prompt.unbracketed text = Text.join [','] segments

variable {segments wanted unwanted : List Text} {text tag before between behind : Text}

/-! ### Segments -/

theorem comma_not_mem_of_blank {blanks : Text} (h : ∀ c ∈ blanks, Text.isBlank c = true) :
    ',' ∉ blanks := by
  intro hcomma
  have hblank := h ',' hcomma
  rw [Text.comma_not_blank] at hblank
  exact Bool.false_ne_true hblank

theorem comma_not_mem_of_plain (h : tag.IsPlain) : ',' ∉ tag :=
  fun hcomma => h.unmarked ',' hcomma (by decide)

theorem Naming.comma_not_mem (h : Naming segments wanted unwanted)
    (hplain : ∀ tag ∈ wanted ++ unwanted, tag.IsPlain) :
    ∀ segment ∈ segments, ',' ∉ segment := by
  have hmark : ',' ≠ unwantedMark := by decide
  induction h with
  | nil => exact fun _ hmem => absurd hmem List.not_mem_nil
  | blank hblanks _ ih =>
      exact List.forall_mem_cons.mpr ⟨comma_not_mem_of_blank hblanks, ih hplain⟩
  | want hbefore hbehind _ ih =>
      obtain ⟨htag, hrest⟩ := List.forall_mem_cons.mp hplain
      refine List.forall_mem_cons.mpr ⟨?_, ih hrest⟩
      simp [comma_not_mem_of_blank hbefore, comma_not_mem_of_blank hbehind,
        comma_not_mem_of_plain htag]
  | shun hbefore hbetween hbehind _ ih =>
      rw [List.forall_mem_append, List.forall_mem_cons] at hplain
      obtain ⟨hwanted, htag, hunwanted⟩ := hplain
      refine List.forall_mem_cons.mpr ⟨?_, ih (List.forall_mem_append.mpr ⟨hwanted, hunwanted⟩)⟩
      simp [comma_not_mem_of_blank hbefore, comma_not_mem_of_blank hbetween,
        comma_not_mem_of_blank hbehind, comma_not_mem_of_plain htag, hmark]

theorem trim_want (hbefore : ∀ c ∈ before, Text.isBlank c = true)
    (hbehind : ∀ c ∈ behind, Text.isBlank c = true) (htag : tag.IsPlain) :
    Text.trim (before ++ tag ++ behind) = tag := by
  rw [Text.trim_append_of_blank_back hbehind, Text.trim_append_of_blank_front hbefore, htag.trimmed]

/-- Trimming takes nothing away that stands behind the mark and in front of the tag. -/
theorem trim_shun (hbefore : ∀ c ∈ before, Text.isBlank c = true) (rest : Text) :
    Text.trim (before ++ unwantedMark :: rest) = unwantedMark :: Text.trimEnd rest := by
  rw [Text.trim_append_of_blank_front hbefore, Text.trim_cons_of_not_blank (by decide)]

theorem unwantedTag?_of_unmarked (h : tag.head? ≠ some unwantedMark) : unwantedTag? tag = none := by
  cases tag with
  | nil => rfl
  | cons c rest =>
      rw [unwantedTag?, if_neg]
      rintro rfl
      exact h rfl

theorem unwantedTag?_of_marked (hbetween : ∀ c ∈ between, Text.isBlank c = true)
    (hbehind : ∀ c ∈ behind, Text.isBlank c = true) (htag : tag.IsPlain) :
    unwantedTag? (unwantedMark :: Text.trimEnd (between ++ tag ++ behind)) = some tag := by
  rw [unwantedTag?, if_pos rfl, Text.trim_trimEnd, trim_want hbetween hbehind htag]

/-- What the segments show are the wanted tags and the unwanted ones behind the mark. -/
theorem Naming.named (h : Naming segments wanted unwanted)
    (hplain : ∀ tag ∈ wanted ++ unwanted, tag.IsPlain)
    (hmark : ∀ tag ∈ wanted, tag.head? ≠ some unwantedMark) :
    (Text.shown segments).filter (fun text => (unwantedTag? text).isNone) = wanted ∧
      (Text.shown segments).filterMap unwantedTag? = unwanted := by
  induction h with
  | nil => exact ⟨rfl, rfl⟩
  | blank hblanks _ ih =>
      rw [Text.shown_cons_of_blank hblanks]
      exact ih hplain hmark
  | want hbefore hbehind _ ih =>
      obtain ⟨htag, hplain⟩ := List.forall_mem_cons.mp hplain
      obtain ⟨hunmarked, hmark⟩ := List.forall_mem_cons.mp hmark
      obtain ⟨hwanted, hunwanted⟩ := ih hplain hmark
      have hside := unwantedTag?_of_unmarked hunmarked
      rw [Text.shown_cons (trim_want hbefore hbehind htag) htag.nonempty,
        List.filter_cons_of_pos (by rw [hside]; rfl), List.filterMap_cons_none hside, hwanted]
      exact ⟨rfl, hunwanted⟩
  | shun hbefore hbetween hbehind _ ih =>
      rw [List.forall_mem_append, List.forall_mem_cons] at hplain
      obtain ⟨hplain, htag, hplain'⟩ := hplain
      obtain ⟨hwanted, hunwanted⟩ := ih (List.forall_mem_append.mpr ⟨hplain, hplain'⟩) hmark
      have hside := unwantedTag?_of_marked hbetween hbehind htag
      rw [Text.shown_cons (trim_shun hbefore _) (List.cons_ne_nil _ _),
        List.filter_cons_of_neg (by rw [hside]; exact Bool.false_ne_true),
        List.filterMap_cons_some hside, hunwanted]
      exact ⟨hwanted, rfl⟩

theorem Lists.named (h : Lists text wanted unwanted)
    (hplain : ∀ tag ∈ wanted ++ unwanted, tag.IsPlain)
    (hmark : ∀ tag ∈ wanted, tag.head? ≠ some unwantedMark) :
    wantedBy (Prompt.parse text .kept) = wanted ∧
      unwantedBy (Prompt.parse text .kept) = unwanted := by
  obtain ⟨segments, hnaming, htext⟩ := h
  have htexts : (Prompt.parse text .kept).map Tag.text = Text.shown segments := by
    rw [← Prompt.texts, Prompt.texts_parse_kept, htext,
      Text.parts_join (hnaming.comma_not_mem hplain)]
  rw [wantedBy, unwantedBy, htexts]
  exact hnaming.named hplain hmark

/-! ### Lists of tags -/

theorem addUnique_eraseDups (h : tag ≠ []) (tags : List Text) :
    addUnique tags.eraseDups tag = (tags ++ [tag]).eraseDups := by
  have hempty : tag.isEmpty = false := List.isEmpty_eq_false_iff.mpr h
  rw [addUnique, hempty, Bool.false_or, List.eraseDups_append]
  by_cases hmem : tag ∈ tags
  · rw [if_pos (by simpa using hmem)]
    simp [List.removeAll, hmem]
  · rw [if_neg (by simpa using hmem)]
    simp [List.removeAll, hmem, List.eraseDups_cons]

/-- Tags named one after another are kept where they are named first. -/
theorem foldl_addUnique_eraseDups {more : List Text} (h : ∀ tag ∈ more, tag ≠ [])
    (tags : List Text) : more.foldl addUnique tags.eraseDups = (tags ++ more).eraseDups := by
  induction more generalizing tags with
  | nil => rw [List.foldl_nil, List.append_nil]
  | cons tag more ih =>
      obtain ⟨htag, hmore⟩ := List.forall_mem_cons.mp h
      rw [List.foldl_cons, addUnique_eraseDups htag, ih hmore, List.append_assoc,
        List.singleton_append]

theorem ofTags_eq_eraseDups (h : ∀ tag ∈ wanted ++ unwanted, tag ≠ []) :
    ofTags wanted unwanted = ⟨wanted.eraseDups, unwanted.eraseDups⟩ := by
  obtain ⟨hwanted, hunwanted⟩ := List.forall_mem_append.mp h
  have hfirst := foldl_addUnique_eraseDups hwanted []
  have hsecond := foldl_addUnique_eraseDups hunwanted []
  rw [List.eraseDups_nil, List.nil_append] at hfirst hsecond
  rw [ofTags_eq, hfirst, hsecond]

theorem named_eq_self {tags : List Text} (h : ∀ tag ∈ tags, tag ≠ []) : named tags = tags :=
  List.filter_eq_self.mpr fun tag htag => by simpa using h tag htag

end Query

/-- **A search text makes the query of its lists.** A text that lists plain wanted tags, none of
which begins with the mark, and plain unwanted tags behind the mark makes the query of the two
lists, whatever blanks and brackets stand in it and however the tags are mixed. The query has each
tag once, where it is named first, and none that is empty, so its key and the order in which its
tags are checked are those of the lists. -/
theorem search_text_makes_query_of_lists {text : Text} {wanted unwanted : List Text}
    (hlists : Query.Lists text wanted unwanted)
    (hplain : ∀ tag ∈ wanted ++ unwanted, tag.IsPlain)
    (hmark : ∀ tag ∈ wanted, tag.head? ≠ some Query.unwantedMark) :
    let q := Query.ofSearch .kept text
    q = .ofTags wanted unwanted ∧
      q.wanted = wanted.eraseDups ∧ q.unwanted = unwanted.eraseDups ∧
      (∀ tag ∈ q.wanted ++ q.unwanted, tag ≠ []) ∧
      q.key = Text.join [','] (Text.sorted wanted.eraseDups) ++
        Query.bar :: Text.join [','] (Text.sorted unwanted.eraseDups) ∧
      ∀ (r : Resolver) (cache : AnswerCache),
        (r.resolve cache q).Checked r.index cache wanted unwanted := by
  intro q
  have hne : ∀ tag ∈ wanted ++ unwanted, tag ≠ [] := fun tag htag => (hplain tag htag).nonempty
  obtain ⟨hwantedBy, hunwantedBy⟩ := hlists.named hplain hmark
  have hq : q = .ofTags wanted unwanted := by
    rw [← hwantedBy, ← hunwantedBy, ← Query.ofPrompt_eq]
    rfl
  have hdups : q = ⟨wanted.eraseDups, unwanted.eraseDups⟩ := by
    rw [hq, Query.ofTags_eq_eraseDups hne]
  refine ⟨hq, congrArg Query.wanted hdups, congrArg Query.unwanted hdups,
    (Query.ofSearch_clean .kept text).1.nonempty, ?_, fun r cache => ?_⟩
  · rw [hdups]
    rfl
  · obtain ⟨hwanted, hunwanted⟩ := List.forall_mem_append.mp hne
    have hchecked := r.checked_ofTags cache wanted unwanted
    rw [Query.named_eq_self hwanted, Query.named_eq_self hunwanted, ← hq] at hchecked
    exact hchecked

/-- Tags named again, a blank segment, an unwanted tag that begins with the mark, and brackets
between a mark and its tag and inside a tag. -/
theorem search_text_makes_query_of_lists_mixed :
    let text := " ~ [rain\x7d, ,1gi]rl ,~~x,\x7b1girl, ~\x7brain\x7d".toList
    let wanted : List Text := ["1girl".toList, "1girl".toList]
    let unwanted : List Text := ["rain".toList, "~x".toList, "rain".toList]
    Query.Lists text wanted unwanted ∧ (∀ tag ∈ wanted ++ unwanted, tag.IsPlain) ∧
      (∀ tag ∈ wanted, tag.head? ≠ some Query.unwantedMark) ∧
      Query.ofSearch .kept text = .ofTags wanted unwanted ∧
      (Query.ofSearch .kept text).unwanted = ["rain".toList, "~x".toList] := by
  intro text wanted unwanted
  have hnone : ∀ c ∈ ([] : Text), Text.isBlank c = true := List.forall_mem_nil _
  have hspace : ∀ c ∈ [' '], Text.isBlank c = true := List.forall_mem_singleton.mpr (by decide)
  have hnaming : Query.Naming _ wanted unwanted :=
    .shun hspace hspace hnone (.blank hspace (.want hnone hspace (.shun hnone hnone hnone
      (.want hnone hnone (.shun hspace hnone hnone .nil)))))
  have hlists : Query.Lists text wanted unwanted := ⟨_, hnaming, by decide⟩
  have hplain : ∀ tag ∈ wanted ++ unwanted, tag.IsPlain := by decide
  have hmark : ∀ tag ∈ wanted, tag.head? ≠ some Query.unwantedMark := by decide
  obtain ⟨hquery, -, hunwanted, -⟩ := search_text_makes_query_of_lists hlists hplain hmark
  exact ⟨hlists, hplain, hmark, hquery, hunwanted⟩

end TagPrompt
