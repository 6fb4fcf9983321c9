import TagPrompt.Proofs.CorpusLayout.Groups
import TagPrompt.Proofs.Search.Slots
import TagPrompt.Proofs.Search.TagIndex
import TagPrompt.Proofs.Text.Split
import TagPrompt.Proofs.Text.Utf8

/-! The table and the index of a laid out corpus. The slots of an entry are the bytes of the offsets
in the group of its tag, so a search over these files finds for every tag the offsets of the lines
that have it. -/

namespace TagPrompt.CorpusLayout

variable {groups : List (Text × List Offset)} {start : Nat} {entry : IndexEntry} {tag : Text}
  {x : Offset}

theorem map_tag_entriesFrom (start : Nat) (groups : List (Text × List Offset)) :
    (entriesFrom start groups).map IndexEntry.tag = tagsOf groups := by
  induction groups generalizing start with
  | nil => rfl
  | cons group groups ih =>
      rw [entriesFrom, List.map_cons, ih, tagsOf_cons]

theorem map_tag_entries (layout : CorpusLayout) :
    layout.entries.map IndexEntry.tag = tagsOf layout.groups :=
  map_tag_entriesFrom 0 layout.groups

theorem mem_tags_of_mem {layout : CorpusLayout} {offsets : List Offset}
    (hgroup : (tag, offsets) ∈ layout.groups) : tag ∈ layout.entries.map IndexEntry.tag := by
  rw [map_tag_entries]
  exact List.mem_map_of_mem hgroup

/-- The slots of an entry begin after those of the groups before its own. -/
theorem exists_group_of_mem_entriesFrom (hentry : entry ∈ entriesFrom start groups) :
    ∃ before offsets after, groups = before ++ (entry.tag, offsets) :: after ∧
      entry.start = (start + (before.flatMap Prod.snd).length).toUInt32 ∧
        entry.stop = (start + (before.flatMap Prod.snd).length + offsets.length).toUInt32 := by
  induction groups generalizing start with
  | nil => exact absurd hentry List.not_mem_nil
  | cons group groups ih =>
      obtain ⟨known, noted⟩ := group
      rw [entriesFrom, List.mem_cons] at hentry
      rcases hentry with rfl | hentry
      · exact ⟨[], noted, groups, rfl, rfl, rfl⟩
      · obtain ⟨before, offsets, after, hsplit, hstart, hstop⟩ := ih hentry
        have hslots : start + (((known, noted) :: before).flatMap Prod.snd).length =
            start + noted.length + (before.flatMap Prod.snd).length := by
          rw [List.flatMap_cons, List.length_append, Nat.add_assoc]
        refine ⟨(known, noted) :: before, offsets, after, ?_, ?_, ?_⟩
        · rw [hsplit, List.cons_append]
        · rw [hslots, hstart]
        · rw [hslots, hstop]

theorem positions_eq (layout : CorpusLayout) :
    layout.positions = (layout.groups.flatMap Prod.snd).flatMap slotBytes :=
  List.flatMap_assoc.symm

/-! ### Counting slots -/

/-- The slots of the table can be numbered: none of their numbers wraps. -/
def Indexable (layout : CorpusLayout) : Prop := layout.positions.length / 4 < UInt32.size

instance (layout : CorpusLayout) : Decidable layout.Indexable :=
  inferInstanceAs (Decidable (_ < _))

theorem length_positions (layout : CorpusLayout) :
    layout.positions.length = 4 * (layout.groups.flatMap Prod.snd).length := by
  rw [positions_eq, length_flatMap_slotBytes, IndexEntry.slotWidth]

/-- Noting a tag takes one new slot at most. -/
theorem length_note_le (tag : Text) (offset : Offset) (groups : List (Text × List Offset)) :
    ((note tag offset groups).flatMap Prod.snd).length ≤
      (groups.flatMap Prod.snd).length + 1 := by
  rcases note_cases tag offset groups with
    ⟨before, offsets, after, rfl, hnote⟩ | ⟨before, after, rfl, hnote⟩
  · rw [hnote]
    split_ifs <;>
      simp only [List.flatMap_append, List.flatMap_cons, List.length_append,
        List.length_singleton] <;>
      omega
  · rw [hnote]
    simp only [List.flatMap_append, List.flatMap_cons, List.length_append, List.length_singleton]
    omega

theorem length_foldl_note_le (tags : List Text) (offset : Offset)
    (groups : List (Text × List Offset)) :
    ((tags.foldl (fun groups tag => note tag offset groups) groups).flatMap Prod.snd).length ≤
      (groups.flatMap Prod.snd).length + tags.length := by
  induction tags generalizing groups with
  | nil => exact Nat.le_refl _
  | cons tag tags ih =>
      have hnote := length_note_le tag offset groups
      have htags := ih (note tag offset groups)
      rw [List.foldl_cons, List.length_cons]
      omega

/-- A line has no more tags than bytes. -/
theorem length_parts_le (prompt : Text) : (Text.parts prompt).length ≤ (lineBytes prompt).length :=
  calc
    (Text.parts prompt).length ≤ (Text.trimmedParts prompt).length := List.length_filter_le _ _
    _ = (Text.split ',' prompt).length := List.length_map _
    _ ≤ prompt.length + 1 := Text.length_split_le ',' prompt
    _ ≤ (Utf8.encode prompt).length + 1 := Nat.succ_le_succ (Utf8.length_le_length_encode prompt)
    _ = (lineBytes prompt).length := by rw [lineBytes, List.length_append, List.length_singleton]

theorem length_foldl_noteLine_le (lines : List (Offset × Text))
    (groups : List (Text × List Offset)) :
    ((lines.foldl noteLine groups).flatMap Prod.snd).length ≤
      (groups.flatMap Prod.snd).length + (lines.flatMap fun line => lineBytes line.2).length := by
  induction lines generalizing groups with
  | nil => exact Nat.le_refl _
  | cons line lines ih =>
      have hline : ((noteLine groups line).flatMap Prod.snd).length ≤
          (groups.flatMap Prod.snd).length + (Text.parts line.2).length :=
        length_foldl_note_le _ line.1 groups
      have hparts := length_parts_le line.2
      have hlines := ih (noteLine groups line)
      rw [List.foldl_cons, List.flatMap_cons, List.length_append]
      omega

theorem indexable_of_size {prompts : List Text}
    (hsize : (ofPrompts prompts).corpus.length < UInt32.size) : (ofPrompts prompts).Indexable := by
  have hlength := length_positions (ofPrompts prompts)
  have hfew := length_foldl_noteLine_le (ofPrompts prompts).lines []
  rw [Indexable, hlength, Nat.mul_div_cancel_left _ (by decide)]
  exact Nat.lt_of_le_of_lt (hfew.trans_eq (Nat.zero_add _)) hsize

/-- The table holds the offsets of a group in the slots of its entry. -/
theorem exists_group_holds {layout : CorpusLayout} (hslots : layout.Indexable)
    (hentry : entry ∈ layout.entries) :
    ∃ offsets, (entry.tag, offsets) ∈ layout.groups ∧ entry.Holds layout.positions offsets := by
  obtain ⟨before, offsets, after, hsplit, hstart, hstop⟩ := exists_group_of_mem_entriesFrom hentry
  rw [Nat.zero_add] at hstart hstop
  -- the slots of the entry are among those of the table, so their numbers do not wrap
  have hcount : (before.flatMap Prod.snd).length + offsets.length < UInt32.size := by
    rw [Indexable, length_positions, Nat.mul_div_cancel_left _ (by decide), hsplit,
      List.flatMap_append, List.flatMap_cons, List.length_append, List.length_append] at hslots
    dsimp only at hslots
    omega
  have hstartNumber : entry.start.toNat = (before.flatMap Prod.snd).length := by
    rw [hstart]
    exact UInt32.toNat_ofNat_of_lt' (Nat.lt_of_le_of_lt (Nat.le_add_right _ _) hcount)
  have hstopNumber : entry.stop.toNat = entry.start.toNat + offsets.length := by
    rw [hstop, hstartNumber]
    exact UInt32.toNat_ofNat_of_lt' hcount
  refine ⟨offsets, ?_, (before.flatMap Prod.snd).flatMap slotBytes,
    (after.flatMap Prod.snd).flatMap slotBytes, ?_, ?_, hstopNumber⟩
  · rw [hsplit]
    exact List.mem_append_right before List.mem_cons_self
  · rw [positions_eq, hsplit, List.flatMap_append, List.flatMap_cons, List.flatMap_append,
      List.flatMap_append]
  · -- the slots of the groups in front fill the table up to the first slot of the entry
    rw [length_flatMap_slotBytes, hstartNumber, IndexEntry.slotWidth]

/-! ### The index -/

theorem get?_index_eq_some_iff (prompts : List Text) :
    (ofPrompts prompts).index.get? tag = some entry ↔
      entry ∈ (ofPrompts prompts).entries ∧ entry.tag = tag := by
  refine TagIndex.get?_ofEntries_eq_some_iff ?_
  rw [map_tag_entries]
  exact nodup_tagsOf prompts

theorem mem_setIn_iff_notes {prompts : List Text} (hslots : (ofPrompts prompts).Indexable)
    (hentry : (ofPrompts prompts).index.get? tag = some entry) :
    x ∈ entry.setIn (ofPrompts prompts).positions ↔ Notes (ofPrompts prompts).groups tag x := by
  obtain ⟨hmem, rfl⟩ := (get?_index_eq_some_iff prompts).mp hentry
  obtain ⟨offsets, hgroup, hholds⟩ := exists_group_holds hslots hmem
  rw [IndexEntry.setIn, hholds.cut_eq, decodePositions, slotValues_flatMap_slotBytes,
    PositionSet.mem_ofList, notes_iff_of_mem (nodup_tagsOf prompts) hgroup]

theorem exists_entry_of_notes {prompts : List Text} (h : Notes (ofPrompts prompts).groups tag x) :
    ∃ entry, (ofPrompts prompts).index.get? tag = some entry := by
  obtain ⟨offsets, hgroup, -⟩ := h
  obtain ⟨entry, hmem, hentry⟩ := List.mem_map.mp (mem_tags_of_mem hgroup)
  exact ⟨entry, (get?_index_eq_some_iff prompts).mpr ⟨hmem, hentry⟩⟩

theorem notes_ofPrompts (prompts : List Text) :
    Notes (ofPrompts prompts).groups tag x ↔
      ∃ line ∈ (ofPrompts prompts).lines, tag ∈ Text.parts line.2 ∧ x = line.1 :=
  (notes_foldl_noteLine _ []).trans (or_iff_right not_notes_nil)

/-! ### Searching -/

variable {prompts : List Text} {r : Resolver}

theorem covered_of_index (hslots : (ofPrompts prompts).Indexable)
    (hindex : r.index = (ofPrompts prompts).index)
    (hserves : r.positions.Serves (ofPrompts prompts).positions r.limit) :
    r.Covered (ofPrompts prompts).positions where
  serves := hserves
  inside tag entry hentry := by
    rw [hindex, get?_index_eq_some_iff] at hentry
    obtain ⟨offsets, -, hholds⟩ := exists_group_holds hslots hentry.1
    exact hholds.inside

/-- The positions of a tag are the offsets of the lines that have it. -/
theorem mem_setIn (hslots : (ofPrompts prompts).Indexable)
    (hindex : r.index = (ofPrompts prompts).index) :
    x ∈ r.setIn (ofPrompts prompts).positions tag ↔
      ∃ line ∈ (ofPrompts prompts).lines, tag ∈ Text.parts line.2 ∧ x = line.1 := by
  rw [← notes_ofPrompts, Resolver.setIn, hindex]
  cases hentry : (ofPrompts prompts).index.get? tag with
  | some entry => exact mem_setIn_iff_notes hslots hentry
  | none =>
      refine iff_of_false (PositionSet.not_mem_empty x) fun hnotes => ?_
      obtain ⟨entry, hfound⟩ := exists_entry_of_notes hnotes
      rw [hentry] at hfound
      cases hfound

end TagPrompt.CorpusLayout
