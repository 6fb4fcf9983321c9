import Mathlib.Data.List.Perm.Basic
import TagPrompt.Categories
import TagPrompt.Proofs.Prompt.Plain
import TagPrompt.Proofs.Prompt.Removal

/-! What arranging a prompt does to its tags. Moving tags out and ordering them only changes their
places, the other operations leave tags out or respell them, and the names of the standard
vocabulary are plain. So plain prompts stay plain, whatever texts the lists of categories hold. -/

namespace TagPrompt

namespace Text

variable {s t : Text}

theorem IsPlain.trimStart_eq (h : t.IsPlain) : trimStart t = t := by
  rw [← h.trimmed, trimStart_trim]

theorem IsPlain.trimEnd_eq (h : t.IsPlain) : trimEnd t = t := by
  calc trimEnd t
    _ = trimEnd (trimStart t) := by rw [h.trimStart_eq]
    _ = t := h.trimmed

/-- Plain texts join to a plain text: blanks can only stand where they meet. -/
theorem IsPlain.append (hs : s.IsPlain) (ht : t.IsPlain) : (s ++ t).IsPlain where
  nonempty := List.append_ne_nil_of_left_ne_nil hs.nonempty t
  trimmed := by
    have hstart : trimStart (s ++ t) = s ++ t := by
      have hs' : s.dropWhile isBlank = s := hs.trimStart_eq
      rw [trimStart, List.dropWhile_append, hs', if_neg (by simpa using hs.nonempty)]
    have hend : trimEnd (s ++ t) = s ++ t := by
      have ht' : t.reverse.dropWhile isBlank = t.reverse :=
        List.reverse_eq_iff.mp ht.trimEnd_eq
      rw [trimEnd, List.reverse_append, List.dropWhile_append, ht',
        if_neg (by simpa using ht.nonempty), ← List.reverse_append, List.reverse_reverse]
    rw [trim, hstart, hend]
  unmarked c hc := (List.mem_append.mp hc).elim (hs.unmarked c) (ht.unmarked c)

end Text

namespace Prompt

variable {p q : Prompt}

theorem IsPlain.subset (h : p.IsPlain) (hsubset : q ⊆ p) : q.IsPlain :=
  fun tag htag => h tag (hsubset htag)

theorem IsPlain.mapText {f : Text → Text} (h : p.IsPlain)
    (hf : ∀ t : Text, t.IsPlain → (f t).IsPlain) : (p.mapText f).IsPlain := by
  intro tag htag
  obtain ⟨tag, hmem, rfl⟩ := List.mem_map.mp htag
  exact hf tag.text (h tag hmem)

/-! ### Moving and copying -/

theorem distinctFrom_sublist (seen : List Text) (p : Prompt) : (distinctFrom seen p).Sublist p := by
  induction p generalizing seen with
  | nil => exact .slnil
  | cons tag rest ih =>
      rw [distinctFrom]
      split_ifs
      · exact (ih seen).cons tag
      · exact (ih (tag.text :: seen)).cons_cons tag

theorem copyOut_subset (lead : Text) (entries : List Text) (p : Prompt) :
    copyOut lead entries p ⊆ p := by
  intro tag htag
  obtain ⟨entry, -, htag⟩ := List.mem_flatMap.mp htag
  exact List.mem_of_mem_filter htag

theorem moveOut_perm (lead : Text) (entries : List Text) (p : Prompt) :
    ((moveOut lead entries p).1 ++ (moveOut lead entries p).2).Perm p := by
  induction entries generalizing p with
  | nil => exact .refl p
  | cons entry entries ih =>
      simp only [moveOut, List.partition_eq_filter_filter, List.append_assoc]
      exact ((ih _).append_left _).trans (List.filter_append_perm (answers lead entry) p)

theorem reorder_perm (categories : Categories) (p : Prompt) : (p.reorder categories).Perm p := by
  have hmoved : ∀ {lead entries p} {moved : Prompt × Prompt}, moveOut lead entries p = moved →
      (moved.1 ++ moved.2).Perm p := by
    rintro lead entries p _ rfl
    exact moveOut_perm lead entries p
  rcases hcounts : moveOut [] categories.count p with ⟨counts, p₁⟩
  rcases hcharacters : moveOut [] categories.character p₁ with ⟨characters, p₂⟩
  rcases hcopyrights : moveOut [] categories.copyright p₂ with ⟨copyrights, p₃⟩
  rcases hartists : moveOut artistLead categories.artist p₃ with ⟨artists, p₄⟩
  rcases hqualities : moveOut [] categories.quality p₄ with ⟨qualities, p₅⟩
  -- from the last list back to the first, what a list took goes back in front of what it left
  have hback₅ : (p₅ ++ qualities).Perm p₄ := List.perm_append_comm.trans (hmoved hqualities)
  have hback₄ : (artists ++ (p₅ ++ qualities)).Perm p₃ :=
    (hback₅.append_left artists).trans (hmoved hartists)
  have hback₃ : (copyrights ++ (artists ++ (p₅ ++ qualities))).Perm p₂ :=
    (hback₄.append_left copyrights).trans (hmoved hcopyrights)
  have hback₂ : (characters ++ (copyrights ++ (artists ++ (p₅ ++ qualities)))).Perm p₁ :=
    (hback₃.append_left characters).trans (hmoved hcharacters)
  simp only [reorder, hcounts, hcharacters, hcopyrights, hartists, hqualities, List.append_assoc]
  exact (hback₂.append_left counts).trans (hmoved hcounts)

namespace IsPlain

variable (h : p.IsPlain)

include h

theorem remove (listed : List Text) : (p.remove listed).IsPlain :=
  h.subset (remove_sublist p listed).subset

theorem keepListed (listed : List Text) : (p.keepListed listed).IsPlain :=
  h.subset List.filter_sublist.subset

theorem distinct : p.distinct.IsPlain := h.subset (distinctFrom_sublist [] p).subset

theorem copyOut (lead : Text) (entries : List Text) : (copyOut lead entries p).IsPlain :=
  h.subset (copyOut_subset lead entries p)

theorem moveOut (lead : Text) (entries : List Text) :
    IsPlain (moveOut lead entries p).1 ∧ IsPlain (moveOut lead entries p).2 :=
  isPlain_append.mp (h.subset (moveOut_perm lead entries p).subset)

theorem reorder (categories : Categories) : (p.reorder categories).IsPlain :=
  h.subset (reorder_perm categories p).subset

end IsPlain

/-! ### Respelling -/

theorem isPlain_standardText {t : Text} (h : t.IsPlain) (artists : List Text) :
    (standardText artists t).IsPlain := by
  have hnames : ∀ name ∈ standardNames, name.2.IsPlain := by decide
  have hlead : artistLead.IsPlain := by decide
  unfold standardText
  split
  · rename_i name hname
    obtain ⟨before, behind, heq, -⟩ := List.lookup_eq_some_iff.mp hname
    exact hnames (t, name) (by simp [heq])
  · split_ifs
    · exact hlead.append h
    · exact h

theorem IsPlain.standardize (h : p.IsPlain) (categories : Categories) :
    (p.standardize categories).IsPlain :=
  h.mapText fun _ ht => isPlain_standardText ht categories.artist

end Prompt

end TagPrompt
