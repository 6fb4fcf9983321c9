import TagPrompt.Proofs.Search.QueryTags
import TagPrompt.Proofs.Text.Order
import TagPrompt.Proofs.Text.Split

/-! When two queries have the same key. A key is the wanted tags, a bar, and the unwanted tags, and
nothing keeps tags from holding bars themselves. So queries of different tags share a key exactly
when the bar of one stands inside a wanted tag of the other, whose bar stands inside an unwanted tag
of the first: wanting `a|b` has the key of wanting `a` and not `b|`. -/

namespace TagPrompt.Query

/-- The bar between the wanted and the unwanted tags of a key. -/
def bar : Char := '|'

def wantedText (q : Query) : Text := Text.join [','] (Text.sorted q.wanted)

def unwantedText (q : Query) : Text := Text.join [','] (Text.sorted q.unwanted)

theorem key_eq (q : Query) : q.key = q.wantedText ++ bar :: q.unwantedText := rfl

/-- The bar of `q'` stands further on than that of `q` in one text that is the key of both. -/
def Shifted (q q' : Query) : Prop :=
  ∃ between, q'.wantedText = q.wantedText ++ bar :: between ∧
    q.unwantedText = between ++ bar :: q'.unwantedText

variable {q q' : Query}

theorem append_bar_eq_iff {a b a' b' : Text} :
    a ++ bar :: b = a' ++ bar :: b' ↔
      (a = a' ∧ b = b') ∨ (∃ m, a' = a ++ bar :: m ∧ b = m ++ bar :: b') ∨
        ∃ m, a = a' ++ bar :: m ∧ b' = m ++ bar :: b := by
  -- the longer one of `a` and `a'` begins with the other, and the bar is what it has more
  rw [List.append_eq_append_iff]
  constructor
  · rintro (⟨m, ha, hb⟩ | ⟨m, ha, hb⟩)
    · cases m with
      | nil => exact Or.inl ⟨by rw [ha, List.append_nil], (List.cons.inj hb).2⟩
      | cons c m =>
          obtain ⟨rfl, htail⟩ := List.cons.inj hb
          exact Or.inr (Or.inl ⟨m, ha, htail⟩)
    · cases m with
      | nil => exact Or.inl ⟨by rw [ha, List.append_nil], (List.cons.inj hb).2.symm⟩
      | cons c m =>
          obtain ⟨rfl, htail⟩ := List.cons.inj hb
          exact Or.inr (Or.inr ⟨m, ha, htail⟩)
  · rintro (⟨rfl, rfl⟩ | ⟨m, ha, hb⟩ | ⟨m, ha, hb⟩)
    · exact Or.inl ⟨[], (List.append_nil a).symm, rfl⟩
    · exact Or.inl ⟨bar :: m, ha, by rw [hb, List.cons_append]⟩
    · exact Or.inr ⟨bar :: m, ha, by rw [hb, List.cons_append]⟩

/-- The order in which a query names its tags has no part in its key. -/
theorem SameTags.key_eq (h : q.SameTags q') (hq : q.IsClean) (hq' : q'.IsClean) :
    q.key = q'.key := by
  have hwanted : Text.sorted q.wanted = Text.sorted q'.wanted :=
    (Text.sorted_eq_iff hq.wanted_nodup hq'.wanted_nodup).mpr h.wanted
  have hunwanted : Text.sorted q.unwanted = Text.sorted q'.unwanted :=
    (Text.sorted_eq_iff hq.unwanted_nodup hq'.unwanted_nodup).mpr h.unwanted
  rw [key, key, hwanted, hunwanted]

theorem comma_not_mem (h : q.IsUnmarked) {tag : Text} (htag : tag ∈ q.wanted ++ q.unwanted) :
    ',' ∉ tag :=
  fun hcomma => h tag htag ',' hcomma (by decide)

theorem join_sorted_eq_iff {tags tags' : List Text} (hnodup : tags.Nodup) (hnodup' : tags'.Nodup)
    (h : ∀ tag ∈ tags, tag ≠ [] ∧ ',' ∉ tag) (h' : ∀ tag ∈ tags', tag ≠ [] ∧ ',' ∉ tag) :
    Text.join [','] (Text.sorted tags) = Text.join [','] (Text.sorted tags') ↔
      ∀ tag, tag ∈ tags ↔ tag ∈ tags' := by
  rw [← Text.sorted_eq_iff hnodup hnodup']
  refine ⟨fun hjoin => ?_, congrArg (Text.join [','])⟩
  exact Text.join_injective (fun tag htag => (h tag (Text.mem_sorted.mp htag)).1)
    (fun tag htag => (h' tag (Text.mem_sorted.mp htag)).1)
    (fun tag htag => (h tag (Text.mem_sorted.mp htag)).2)
    (fun tag htag => (h' tag (Text.mem_sorted.mp htag)).2) hjoin

theorem texts_eq_iff (hq : q.IsClean) (hq' : q'.IsClean) (hfree : q.IsUnmarked)
    (hfree' : q'.IsUnmarked) :
    q.wantedText = q'.wantedText ∧ q.unwantedText = q'.unwantedText ↔ q.SameTags q' := by
  have htags : ∀ tag ∈ q.wanted ++ q.unwanted, tag ≠ [] ∧ ',' ∉ tag :=
    fun tag htag => ⟨hq.nonempty tag htag, comma_not_mem hfree htag⟩
  have htags' : ∀ tag ∈ q'.wanted ++ q'.unwanted, tag ≠ [] ∧ ',' ∉ tag :=
    fun tag htag => ⟨hq'.nonempty tag htag, comma_not_mem hfree' htag⟩
  rw [List.forall_mem_append] at htags htags'
  rw [wantedText, wantedText, unwantedText, unwantedText,
    join_sorted_eq_iff hq.wanted_nodup hq'.wanted_nodup htags.1 htags'.1,
    join_sorted_eq_iff hq.unwanted_nodup hq'.unwanted_nodup htags.2 htags'.2]
  exact ⟨fun h => ⟨h.1, h.2⟩, fun h => ⟨h.wanted, h.unwanted⟩⟩

/-- Queries share a key when they name the same tags or when a bar is shifted, and only then. -/
theorem key_eq_iff (hq : q.IsClean) (hq' : q'.IsClean) (hfree : q.IsUnmarked)
    (hfree' : q'.IsUnmarked) :
    q.key = q'.key ↔ q.SameTags q' ∨ q.Shifted q' ∨ q'.Shifted q := by
  rw [key_eq, key_eq, append_bar_eq_iff, texts_eq_iff hq hq' hfree hfree']
  exact Iff.rfl

/-- A shift takes a bar in an unwanted tag of one query and in a wanted tag of the other. -/
theorem Shifted.exists_bar (h : q.Shifted q') :
    (∃ tag ∈ q.unwanted, bar ∈ tag) ∧ ∃ tag ∈ q'.wanted, bar ∈ tag := by
  obtain ⟨between, hwanted, hunwanted⟩ := h
  have hcomma : bar ∉ [','] := by decide
  have hin : bar ∈ q.unwantedText := by
    rw [hunwanted]
    exact List.mem_append_right _ List.mem_cons_self
  have hin' : bar ∈ q'.wantedText := by
    rw [hwanted]
    exact List.mem_append_right _ List.mem_cons_self
  obtain ⟨tag, htag, hbar⟩ := (Text.mem_of_mem_join hin).resolve_left hcomma
  obtain ⟨tag', htag', hbar'⟩ := (Text.mem_of_mem_join hin').resolve_left hcomma
  exact ⟨⟨tag, Text.mem_sorted.mp htag, hbar⟩, tag', Text.mem_sorted.mp htag', hbar'⟩

end TagPrompt.Query
