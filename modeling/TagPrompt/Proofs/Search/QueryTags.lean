import Mathlib.Data.List.Nodup
import TagPrompt.Search.Query
import TagPrompt.Proofs.Prompt.Plain

/-! The tags that a query names. Naming tags one after another, a query never comes to hold an empty
tag or a tag twice, and what is read from a search text holds no comma and no bracket. -/

namespace TagPrompt.Query

/-- Neither list holds an empty tag or a tag twice. -/
structure IsClean (q : Query) : Prop where
  wanted_nodup : q.wanted.Nodup
  unwanted_nodup : q.unwanted.Nodup
  nonempty : ∀ tag ∈ q.wanted ++ q.unwanted, tag ≠ []

/-- No tag holds a character that shapes a prompt. -/
def IsUnmarked (q : Query) : Prop := ∀ tag ∈ q.wanted ++ q.unwanted, ∀ c ∈ tag, c ∉ Text.marks

/-- The queries name the same tags, in any order and any number of times. -/
structure SameTags (q q' : Query) : Prop where
  wanted : ∀ tag, tag ∈ q.wanted ↔ tag ∈ q'.wanted
  unwanted : ∀ tag, tag ∈ q.unwanted ↔ tag ∈ q'.unwanted

section SameTags

variable {q q' : Query}

theorem SameTags.refl (q : Query) : q.SameTags q := ⟨fun _ => Iff.rfl, fun _ => Iff.rfl⟩

theorem SameTags.wanted_ne_nil (h : q.SameTags q') (hwanted : q.wanted ≠ []) : q'.wanted ≠ [] := by
  obtain ⟨tag, htag⟩ := List.exists_mem_of_ne_nil q.wanted hwanted
  exact List.ne_nil_of_mem ((h.wanted tag).mp htag)

theorem SameTags.mem_append (h : q.SameTags q') (tag : Text) :
    tag ∈ q.wanted ++ q.unwanted ↔ tag ∈ q'.wanted ++ q'.unwanted := by
  rw [List.mem_append, List.mem_append, h.wanted, h.unwanted]

end SameTags

/-! ### Adding a tag -/

theorem mem_addUnique {tags : List Text} {tag t : Text} :
    t ∈ addUnique tags tag ↔ t ∈ tags ∨ t = tag ∧ tag ≠ [] := by
  rw [addUnique]
  split_ifs with h
  · simp only [Bool.or_eq_true, List.isEmpty_iff, List.contains_iff_mem] at h
    refine ⟨Or.inl, ?_⟩
    rintro (ht | ⟨rfl, hne⟩)
    · exact ht
    · exact h.resolve_left hne
  · simp only [Bool.or_eq_true, List.isEmpty_iff, not_or] at h
    simp [h.1]

theorem nodup_addUnique {tags : List Text} (h : tags.Nodup) (tag : Text) :
    (addUnique tags tag).Nodup := by
  rw [addUnique]
  split_ifs with hskip
  · exact h
  · simp only [Bool.or_eq_true, List.contains_iff_mem, not_or] at hskip
    exact List.nodup_append.mpr ⟨h, List.nodup_singleton tag, fun a ha b hb hab =>
      hskip.2 (List.mem_singleton.mp hb ▸ hab ▸ ha)⟩

variable {q : Query}

theorem isClean_empty : IsClean {} :=
  ⟨List.nodup_nil, List.nodup_nil, fun _ h => absurd h List.not_mem_nil⟩

theorem mem_want {tag t : Text} :
    t ∈ (q.want tag).wanted ++ (q.want tag).unwanted ↔
      t ∈ q.wanted ++ q.unwanted ∨ t = tag ∧ tag ≠ [] := by
  rw [want, List.mem_append, List.mem_append, mem_addUnique, or_right_comm]

theorem mem_shun {tag t : Text} :
    t ∈ (q.shun tag).wanted ++ (q.shun tag).unwanted ↔
      t ∈ q.wanted ++ q.unwanted ∨ t = tag ∧ tag ≠ [] := by
  rw [shun, List.mem_append, List.mem_append, mem_addUnique, or_assoc]

theorem IsClean.want (h : q.IsClean) (tag : Text) : (q.want tag).IsClean where
  wanted_nodup := nodup_addUnique h.wanted_nodup tag
  unwanted_nodup := h.unwanted_nodup
  nonempty t ht := by
    rcases mem_want.mp ht with ht | ⟨rfl, hne⟩
    · exact h.nonempty t ht
    · exact hne

theorem IsClean.shun (h : q.IsClean) (tag : Text) : (q.shun tag).IsClean where
  wanted_nodup := h.wanted_nodup
  unwanted_nodup := nodup_addUnique h.unwanted_nodup tag
  nonempty t ht := by
    rcases mem_shun.mp ht with ht | ⟨rfl, hne⟩
    · exact h.nonempty t ht
    · exact hne

/-! ### Queries of lists -/

theorem foldl_want (q : Query) (tags : List Text) :
    tags.foldl want q = { q with wanted := tags.foldl addUnique q.wanted } := by
  induction tags generalizing q with
  | nil => rfl
  | cons tag tags ih => rw [List.foldl_cons, ih, List.foldl_cons, want]

theorem foldl_shun (q : Query) (tags : List Text) :
    tags.foldl shun q = { q with unwanted := tags.foldl addUnique q.unwanted } := by
  induction tags generalizing q with
  | nil => rfl
  | cons tag tags ih => rw [List.foldl_cons, ih, List.foldl_cons, shun]

theorem mem_foldl_addUnique {tags named : List Text} {t : Text} :
    t ∈ named.foldl addUnique tags ↔ t ∈ tags ∨ t ∈ named ∧ t ≠ [] := by
  induction named generalizing tags with
  | nil => simp
  | cons tag named ih =>
      rw [List.foldl_cons, ih, mem_addUnique, List.mem_cons]
      constructor
      · rintro ((ht | ⟨rfl, hne⟩) | ⟨ht, hne⟩)
        · exact Or.inl ht
        · exact Or.inr ⟨Or.inl rfl, hne⟩
        · exact Or.inr ⟨Or.inr ht, hne⟩
      · rintro (ht | ⟨rfl | ht, hne⟩)
        · exact Or.inl (Or.inl ht)
        · exact Or.inl (Or.inr ⟨rfl, hne⟩)
        · exact Or.inr ⟨ht, hne⟩

theorem ofTags_eq (wanted unwanted : List Text) :
    ofTags wanted unwanted = ⟨wanted.foldl addUnique [], unwanted.foldl addUnique []⟩ := by
  rw [ofTags, foldl_want, foldl_shun]

theorem mem_wanted_ofTags {wanted unwanted : List Text} {t : Text} :
    t ∈ (ofTags wanted unwanted).wanted ↔ t ∈ wanted ∧ t ≠ [] := by
  rw [ofTags_eq, mem_foldl_addUnique]
  exact or_iff_right List.not_mem_nil

theorem mem_unwanted_ofTags {wanted unwanted : List Text} {t : Text} :
    t ∈ (ofTags wanted unwanted).unwanted ↔ t ∈ unwanted ∧ t ≠ [] := by
  rw [ofTags_eq, mem_foldl_addUnique]
  exact or_iff_right List.not_mem_nil

/-- Lists name the tags of a query in any order, any number of times, and with empty tags added. -/
theorem sameTags_ofTags {wanted unwanted : List Text}
    (hwanted : ∀ tag, tag ∈ q.wanted ↔ tag ∈ wanted ∧ tag ≠ [])
    (hunwanted : ∀ tag, tag ∈ q.unwanted ↔ tag ∈ unwanted ∧ tag ≠ []) :
    q.SameTags (ofTags wanted unwanted) where
  wanted tag := (hwanted tag).trans mem_wanted_ofTags.symm
  unwanted tag := (hunwanted tag).trans mem_unwanted_ofTags.symm

/-! ### Queries of search texts -/

def ofSearch (last : Prompt.LastSegment) (text : Text) : Query := ofPrompt (Prompt.parse text last)

/-- The unwanted tag that a text names, if it begins with the mark. -/
def unwantedTag? : Text → Option Text
  | [] => none
  | c :: rest => if c = unwantedMark then some (Text.trim rest) else none

/-- The tags that a prompt names as wanted, in order. -/
def wantedBy (p : Prompt) : List Text :=
  (p.map Tag.text).filter fun text => (unwantedTag? text).isNone

/-- The tags that a prompt names as unwanted, in order. -/
def unwantedBy (p : Prompt) : List Text := (p.map Tag.text).filterMap unwantedTag?

theorem addTag_eq (q : Query) (tag : Tag) :
    q.addTag tag = ((unwantedTag? tag.text).map q.shun).getD (q.want tag.text) := by
  unfold Query.addTag
  cases htext : tag.text with
  | nil => rfl
  | cons c rest =>
      by_cases hc : c = unwantedMark
      · simp [unwantedTag?, hc]
      · simp [unwantedTag?, hc]

theorem foldl_addTag_eq (p : Prompt) (q : Query) :
    p.foldl addTag q =
      ⟨(wantedBy p).foldl addUnique q.wanted, (unwantedBy p).foldl addUnique q.unwanted⟩ := by
  induction p generalizing q with
  | nil => rfl
  | cons tag rest ih =>
      rw [List.foldl_cons, ih, addTag_eq]
      cases hside : unwantedTag? tag.text with
      | none => simp [wantedBy, unwantedBy, hside, want]
      | some t => simp [wantedBy, unwantedBy, hside, shun]

/-- A prompt names its wanted and its unwanted tags apart from each other. -/
theorem ofPrompt_eq (p : Prompt) : ofPrompt p = ofTags (wantedBy p) (unwantedBy p) := by
  rw [ofPrompt, foldl_addTag_eq, ofTags_eq]

theorem IsClean.addTag (h : q.IsClean) (tag : Tag) : (q.addTag tag).IsClean := by
  unfold Query.addTag
  split
  · exact h.want []
  · split_ifs
    · exact h.shun _
    · exact h.want _

/-- The queries that can be made: of lists of tags, or of the tags of a prompt. -/
inductive Made : Query → Prop
  | ofTags (wanted unwanted : List Text) : Made (ofTags wanted unwanted)
  | ofPrompt (p : Prompt) : Made (ofPrompt p)

theorem Made.isClean (h : q.Made) : q.IsClean := by
  cases h with
  | ofTags wanted unwanted =>
      apply List.foldlRecOn
      · apply List.foldlRecOn
        · exact isClean_empty
        · exact fun q hq tag _ => hq.want tag
      · exact fun q hq tag _ => hq.shun tag
  | ofPrompt p =>
      apply List.foldlRecOn
      · exact isClean_empty
      · exact fun q hq tag _ => hq.addTag tag

theorem IsUnmarked.addTag (h : q.IsUnmarked) {tag : Tag} (htag : ∀ c ∈ tag.text, c ∉ Text.marks) :
    (q.addTag tag).IsUnmarked := by
  intro t ht
  unfold Query.addTag at ht
  split at ht
  · rcases mem_want.mp ht with ht | ⟨-, hne⟩
    · exact h t ht
    · exact absurd rfl hne
  · rename_i c rest htext
    split_ifs at ht
    · rcases mem_shun.mp ht with ht | ⟨rfl, -⟩
      · exact h t ht
      · intro d hd
        refine htag d ?_
        rw [htext]
        exact List.mem_cons_of_mem c (Text.mem_of_mem_trim hd)
    · rcases mem_want.mp ht with ht | ⟨rfl, -⟩
      · exact h t ht
      · exact htag

theorem foldl_addTag (p : Prompt) (hp : p.IsPlain) (hclean : q.IsClean) (hunmarked : q.IsUnmarked) :
    (p.foldl Query.addTag q).IsClean ∧ (p.foldl Query.addTag q).IsUnmarked := by
  induction p generalizing q with
  | nil => exact ⟨hclean, hunmarked⟩
  | cons tag rest ih =>
      obtain ⟨htag, hrest⟩ := Prompt.isPlain_cons.mp hp
      exact ih hrest (hclean.addTag tag) (hunmarked.addTag htag.unmarked)

theorem ofSearch_clean (last : Prompt.LastSegment) (text : Text) :
    (ofSearch last text).IsClean ∧ (ofSearch last text).IsUnmarked :=
  foldl_addTag _ (Prompt.isPlain_parse text last) isClean_empty
    fun _ h => absurd h List.not_mem_nil

end TagPrompt.Query
