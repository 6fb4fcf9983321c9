import Mathlib.Data.List.Nodup
import TagPrompt.Search.TagIndex

/-! Looking tags up. An index that is built from entries has the last entry of every tag, and so
each entry when no tag is repeated. -/

namespace TagPrompt.TagIndex

variable {entries : List IndexEntry} {entry : IndexEntry} {tag : Text}

def isOf (tag : Text) (entry : IndexEntry) : Bool := entry.tag == tag

theorem isOf_iff : isOf tag entry = true ↔ entry.tag = tag := beq_iff_eq

theorem get?_eq (index : TagIndex) (tag : Text) : index.get? tag = index.entries.find? (isOf tag) :=
  rfl

theorem get?_insert (index : TagIndex) (entry : IndexEntry) (tag : Text) :
    (index.insert entry).get? tag = if entry.tag = tag then some entry else index.get? tag := by
  rw [get?_eq, get?_eq, insert]
  by_cases htag : entry.tag = tag
  · rw [if_pos htag, List.find?_cons_of_pos (isOf_iff.mpr htag)]
  · -- only entries of the new entry's tag are taken out, and that is another tag
    have hkept : ∀ known : IndexEntry, isOf tag known = true → (known.tag != entry.tag) = true := by
      intro known hknown
      rw [bne_iff_ne, isOf_iff.mp hknown]
      exact fun h => htag h.symm
    rw [if_neg htag, List.find?_cons_of_neg (mt isOf_iff.mp htag), List.find?_filter]
    refine congrArg (List.find? · index.entries) ?_
    funext known
    simpa using hkept known

theorem get?_foldl_insert (index : TagIndex) (entries : List IndexEntry) (tag : Text) :
    (entries.foldl insert index).get? tag =
      (entries.reverse.find? (isOf tag)).or (index.get? tag) := by
  induction entries generalizing index with
  | nil => rfl
  | cons entry entries ih =>
      rw [List.foldl_cons, ih, get?_insert, List.reverse_cons, List.find?_append, Option.or_assoc]
      by_cases htag : entry.tag = tag
      · rw [if_pos htag, List.find?_cons_of_pos (isOf_iff.mpr htag), Option.some_or]
      · rw [if_neg htag, List.find?_cons_of_neg (mt isOf_iff.mp htag), List.find?_nil,
          Option.none_or]

theorem get?_ofEntries (entries : List IndexEntry) (tag : Text) :
    (ofEntries entries).get? tag = entries.reverse.find? (isOf tag) := by
  rw [ofEntries, get?_foldl_insert]
  exact Option.or_none

/-- Among entries with distinct tags the one of a tag is found. -/
theorem find?_isOf_eq_some_iff (hnodup : (entries.map IndexEntry.tag).Nodup) :
    entries.find? (isOf tag) = some entry ↔ entry ∈ entries ∧ entry.tag = tag := by
  constructor
  · exact fun hfound => ⟨List.mem_of_find?_eq_some hfound, isOf_iff.mp (List.find?_some hfound)⟩
  · rintro ⟨hentry, htag⟩
    cases hfound : entries.find? (isOf tag) with
    | none => exact absurd (isOf_iff.mpr htag) (List.find?_eq_none.mp hfound entry hentry)
    | some found =>
        have hfoundTag : found.tag = tag := isOf_iff.mp (List.find?_some hfound)
        exact congrArg some (List.inj_on_of_nodup_map hnodup (List.mem_of_find?_eq_some hfound)
          hentry (hfoundTag.trans htag.symm))

theorem get?_ofEntries_eq_some_iff (hnodup : (entries.map IndexEntry.tag).Nodup) :
    (ofEntries entries).get? tag = some entry ↔ entry ∈ entries ∧ entry.tag = tag := by
  have hreverse : (entries.reverse.map IndexEntry.tag).Nodup := by
    rwa [List.map_reverse, List.nodup_reverse]
  rw [get?_ofEntries, find?_isOf_eq_some_iff hreverse, List.mem_reverse]

end TagPrompt.TagIndex
