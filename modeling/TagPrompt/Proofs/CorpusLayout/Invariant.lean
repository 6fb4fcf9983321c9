import TagPrompt.Proofs.CorpusLayout.Lines
import TagPrompt.Proofs.CorpusLayout.Table
import TagPrompt.Proofs.Text.ByteOrder
import TagPrompt.Proofs.Text.Split

/-! What the files of a laid out corpus promise a reader. The groups are built in one pass over the
lines, and the offsets of a tag can also be read off the prompts one by one; both give the same
offsets in the same order. -/

namespace TagPrompt.CorpusLayout

/-- The slots of entries follow each other without a gap from a first slot to the end, and no entry
is without slots. -/
def Tiles (stop : Nat) : Nat → List IndexEntry → Prop
  | first, [] => first = stop
  | first, entry :: entries =>
      entry.start.toNat = first ∧ first < entry.stop.toNat ∧ Tiles stop entry.stop.toNat entries

/-- The entries, the position table and the corpus of a layout are those of the prompts. -/
structure Invariant (prompts : List Text) (layout : CorpusLayout) : Prop where
  /-- The tags of the entries are the parts of the prompts that are not blank. -/
  mem_tags : ∀ tag, tag ∈ layout.entries.map IndexEntry.tag ↔
    tag ≠ [] ∧ ∃ prompt ∈ prompts, tag ∈ prompt.trimmedParts
  /-- They ascend byte by byte, so that none is repeated. -/
  tags_ascending : (layout.entries.map IndexEntry.tag).Pairwise fun s t =>
    Utf8.encode s < Utf8.encode t
  /-- The entries share out the slots of the table, which are whole. -/
  tiles : Tiles (layout.positions.length / 4) 0 layout.entries
  whole : layout.positions.length % 4 = 0
  /-- A slot number is a word of the index file. -/
  slot_lt : layout.positions.length / 4 < UInt32.size
  /-- The slots of a tag are the offsets that are read off the prompts, in their order. -/
  slots_eq : ∀ entry ∈ layout.entries,
    slotValues (entry.byteRange.cut layout.positions) = layout.offsetsWith entry.tag ∧
      (decodePositions (entry.byteRange.cut layout.positions)).values =
        layout.offsetsWith entry.tag
  /-- These ascend, and every prompt that has the tag has one, however often it has it. -/
  offsetsWith_ascending : ∀ tag, (layout.offsetsWith tag).Pairwise (· < ·)
  length_offsetsWith : ∀ tag, (layout.offsetsWith tag).length =
    (prompts.filter fun prompt => tag ∈ prompt.trimmedParts).length
  length_offsets : layout.offsets.length = prompts.length
  /-- At the offset of a prompt the corpus has the prompt as a line. -/
  line_at : ∀ (i : Nat) (prompt : Text), prompts[i]? = some prompt →
    ∃ offset, layout.offsets[i]? = some offset ∧
      (Utf8.encode prompt ++ [Corpus.lineFeed]) <+: layout.corpus.drop offset.toNat ∧
      ∀ tag, offset ∈ layout.offsetsWith tag ↔ tag ∈ prompt.trimmedParts

variable {groups : List (Text × List Offset)} {entry : IndexEntry} {tag : Text}
  {prompts : List Text} {x : Offset}

/-! ### Slots -/

theorem tiles_entriesFrom (start : Nat) (h : ∀ group ∈ groups, group.2 ≠ [])
    (hslots : start + (groups.flatMap Prod.snd).length < UInt32.size) :
    Tiles (start + (groups.flatMap Prod.snd).length) start (entriesFrom start groups) := by
  induction groups generalizing start with
  | nil => exact rfl
  | cons group groups ih =>
      obtain ⟨known, offsets⟩ := group
      obtain ⟨hne, hgroups⟩ := List.forall_mem_cons.mp h
      have hpos : 0 < offsets.length := List.length_pos_iff.mpr hne
      rw [List.flatMap_cons, List.length_append, ← Nat.add_assoc] at hslots ⊢
      dsimp only at hslots ⊢
      have hstart : start.toUInt32.toNat = start := UInt32.toNat_ofNat_of_lt' (by omega)
      have hstop : (start + offsets.length).toUInt32.toNat = start + offsets.length :=
        UInt32.toNat_ofNat_of_lt' (by omega)
      refine ⟨hstart, ?_, ?_⟩
      · rw [hstop]
        exact Nat.lt_add_of_pos_right hpos
      · rw [hstop]
        exact ih (start + offsets.length) hgroups hslots

/-! ### Offsets -/

theorem mem_offsetsWith {layout : CorpusLayout} :
    x ∈ layout.offsetsWith tag ↔
      ∃ line ∈ layout.lines, tag ∈ Text.trimmedParts line.2 ∧ x = line.1 := by
  simp only [offsetsWith, List.mem_map, List.mem_filter, List.contains_iff_mem, and_assoc,
    eq_comm (a := x), Text.trimmedParts]

theorem offsetsWith_ascending (hsize : (ofPrompts prompts).corpus.length < UInt32.size)
    (tag : Text) : ((ofPrompts prompts).offsetsWith tag).Pairwise (· < ·) :=
  map_fst_filter_lines_ascending hsize _

theorem length_offsetsWith (prompts : List Text) (tag : Text) :
    ((ofPrompts prompts).offsetsWith tag).length =
      (prompts.filter fun prompt => tag ∈ prompt.trimmedParts).length := by
  rw [← map_snd_filter_lines, offsetsWith, List.length_map, List.length_map]
  exact congrArg List.length (List.filter_congr fun line _ => List.contains_eq_mem _ _)

/-- Of all lines, the offset of a line is noted for its own tags only. -/
theorem mem_offsetsWith_iff (hsize : (ofPrompts prompts).corpus.length < UInt32.size)
    {line : Offset × Text} (hline : line ∈ (ofPrompts prompts).lines) :
    line.1 ∈ (ofPrompts prompts).offsetsWith tag ↔ tag ∈ line.2.trimmedParts := by
  rw [mem_offsetsWith]
  constructor
  · rintro ⟨line', hline', htag, hoffset⟩
    rwa [eq_of_offset_eq hsize hline hline' hoffset]
  · exact fun htag => ⟨line, hline, htag, rfl⟩

/-! ### Groups -/

theorem exists_risesTo_groups (hsize : (ofPrompts prompts).corpus.length < UInt32.size) :
    ∃ last, ∀ group ∈ (ofPrompts prompts).groups, RisesTo last group.2 :=
  exists_risesTo_foldl_noteLine (lines_ascending hsize) (fun _ _ => UInt32.zero_le)
    fun _ hgroup => absurd hgroup List.not_mem_nil

theorem mem_tagsOf_iff (hne : ∀ group ∈ groups, group.2 ≠ []) :
    tag ∈ tagsOf groups ↔ ∃ x, Notes groups tag x := by
  constructor
  · intro htag
    obtain ⟨group, hgroup, rfl⟩ := List.mem_map.mp htag
    obtain ⟨x, hx⟩ := List.exists_mem_of_ne_nil group.2 (hne group hgroup)
    exact ⟨x, group.2, hgroup, hx⟩
  · rintro ⟨x, offsets, hgroup, -⟩
    exact List.mem_map_of_mem hgroup

theorem mem_tags_iff (hne : ∀ group ∈ (ofPrompts prompts).groups, group.2 ≠ []) :
    tag ∈ (ofPrompts prompts).entries.map IndexEntry.tag ↔
      tag ≠ [] ∧ ∃ prompt ∈ prompts, tag ∈ prompt.trimmedParts := by
  rw [map_tag_entries, mem_tagsOf_iff hne]
  constructor
  · rintro ⟨x, hnotes⟩
    obtain ⟨line, hline, hpart, -⟩ := (notes_ofPrompts prompts).mp hnotes
    obtain ⟨htag, hblank⟩ := Text.mem_parts.mp hpart
    have hprompt : line.2 ∈ (ofPrompts prompts).lines.map Prod.snd := List.mem_map_of_mem hline
    rw [map_snd_lines] at hprompt
    exact ⟨hblank, line.2, hprompt, htag⟩
  · rintro ⟨hblank, prompt, hprompt, htag⟩
    rw [← map_snd_lines prompts] at hprompt
    obtain ⟨line, hline, rfl⟩ := List.mem_map.mp hprompt
    exact ⟨line.1, (notes_ofPrompts prompts).mpr
      ⟨line, hline, Text.mem_parts.mpr ⟨htag, hblank⟩, rfl⟩⟩

/-- Grouping the lines and looking through them for one tag give the same offsets. -/
theorem eq_offsetsWith_of_mem (hsize : (ofPrompts prompts).corpus.length < UInt32.size)
    {offsets : List Offset} (hgroup : (tag, offsets) ∈ (ofPrompts prompts).groups) :
    offsets = (ofPrompts prompts).offsetsWith tag := by
  obtain ⟨last, hrises⟩ := exists_risesTo_groups hsize
  have hnotes : ∀ x, x ∈ offsets ↔ Notes (ofPrompts prompts).groups tag x := fun x =>
    (notes_iff_of_mem (nodup_tagsOf prompts) hgroup).symm
  have htag : tag ≠ [] :=
    ((mem_tags_iff fun group h => (hrises group h).ne_nil).mp (mem_tags_of_mem hgroup)).1
  refine PositionSet.eq_of_ascending (hrises _ hgroup).ascending (offsetsWith_ascending hsize tag)
    fun x => ?_
  rw [hnotes, notes_ofPrompts, mem_offsetsWith]
  simp only [Text.mem_parts, ne_eq, htag, not_false_eq_true, and_true]

theorem slots_eq_offsetsWith (hsize : (ofPrompts prompts).corpus.length < UInt32.size)
    (hentry : entry ∈ (ofPrompts prompts).entries) :
    slotValues (entry.byteRange.cut (ofPrompts prompts).positions) =
        (ofPrompts prompts).offsetsWith entry.tag ∧
      (decodePositions (entry.byteRange.cut (ofPrompts prompts).positions)).values =
        (ofPrompts prompts).offsetsWith entry.tag := by
  obtain ⟨offsets, hgroup, hholds⟩ := exists_group_holds (indexable_of_size hsize) hentry
  have hslots : slotValues (entry.byteRange.cut (ofPrompts prompts).positions) =
      (ofPrompts prompts).offsetsWith entry.tag := by
    rw [hholds.cut_eq, slotValues_flatMap_slotBytes]
    exact eq_offsetsWith_of_mem hsize hgroup
  refine ⟨hslots, ?_⟩
  rw [decodePositions, hslots]
  exact PositionSet.eq_of_ascending (PositionSet.ofList _).ascending
    (offsetsWith_ascending hsize entry.tag) fun x => PositionSet.mem_ofList

/-! ### Lines -/

theorem length_offsets (prompts : List Text) :
    (ofPrompts prompts).offsets.length = prompts.length := by
  conv_rhs => rw [← map_snd_lines prompts, List.length_map]
  rw [offsets, List.length_map]

/-- At the offset of a prompt the corpus begins with the prompt and a line end. -/
theorem line_at (hsize : (ofPrompts prompts).corpus.length < UInt32.size) {i : Nat} {prompt : Text}
    (hprompt : prompts[i]? = some prompt) :
    ∃ offset, (ofPrompts prompts).offsets[i]? = some offset ∧
      (Utf8.encode prompt ++ [Corpus.lineFeed]) <+: (ofPrompts prompts).corpus.drop offset.toNat ∧
      ∀ tag, offset ∈ (ofPrompts prompts).offsetsWith tag ↔ tag ∈ prompt.trimmedParts := by
  obtain ⟨offset, hoffset, hline⟩ := exists_line_of_getElem? hprompt
  obtain ⟨before, after, hsplit, hbefore⟩ := exists_split_of_mem_lines hsize hline
  refine ⟨offset, hoffset, ?_, fun tag => mem_offsetsWith_iff hsize hline⟩
  rw [hsplit, hbefore, List.drop_left]
  exact List.prefix_append _ after

/-- **The files that prompts are laid out as keep the invariant.** The entries have exactly the tags
of the prompts, in ascending order of their bytes, and share out the slots of the table without a
gap; the slots of a tag are the offsets that are read off the prompts for it, one for every prompt
that has the tag, in ascending order; and the corpus has every prompt as a line at its offset. -/
theorem invariant_ofPrompts (prompts : List Text)
    (hsize : (ofPrompts prompts).corpus.length < UInt32.size) :
    (ofPrompts prompts).Invariant prompts := by
  obtain ⟨last, hrises⟩ := exists_risesTo_groups hsize
  have hne : ∀ group ∈ (ofPrompts prompts).groups, group.2 ≠ [] :=
    fun group hgroup => (hrises group hgroup).ne_nil
  have hlength := length_positions (ofPrompts prompts)
  have hfew : (ofPrompts prompts).positions.length / 4 < UInt32.size := indexable_of_size hsize
  have hslots : (ofPrompts prompts).positions.length / 4 =
      ((ofPrompts prompts).groups.flatMap Prod.snd).length := by omega
  exact
    { mem_tags := fun tag => mem_tags_iff hne
      tags_ascending := by
        rw [map_tag_entries]
        exact (pairwise_foldl_noteLine _ List.Pairwise.nil).imp fun h =>
          Utf8.encode_lt_encode h.1 h.2
      tiles := by
        have htiles := tiles_entriesFrom 0 hne (by rwa [Nat.zero_add, ← hslots])
        rwa [Nat.zero_add, ← hslots] at htiles
      whole := by omega
      slot_lt := hfew
      slots_eq := fun entry hentry => slots_eq_offsetsWith hsize hentry
      offsetsWith_ascending := offsetsWith_ascending hsize
      length_offsetsWith := length_offsetsWith prompts
      length_offsets := length_offsets prompts
      line_at := fun i prompt => line_at hsize }

/-- A tag twice in a prompt, one prompt twice, an empty one, one of blank parts only, and a tag
whose first character has two bytes. -/
theorem invariant_ofPrompts_with_repetitions :
    let prompts := ["b,a, b".toList, [], "é,, b".toList, " , ".toList, "b,a, b".toList]
    let layout := ofPrompts prompts
    layout.corpus.length < UInt32.size ∧ layout.Invariant prompts ∧
      layout.entries = [⟨"a".toList, 0, 2⟩, ⟨"b".toList, 2, 5⟩, ⟨"é".toList, 5, 6⟩] ∧
      slotValues (layout.positions.drop 8 |>.take 12) = [0, 8, 19] ∧
      (Utf8.encode "b,a, b\n".toList) <+: layout.corpus.drop 19 := by
  intro prompts layout
  have hsize : layout.corpus.length < UInt32.size := by decide
  have hinvariant := invariant_ofPrompts prompts hsize
  obtain ⟨offset, hoffset, hline, -⟩ := hinvariant.line_at 4 "b,a, b".toList rfl
  obtain rfl : 19 = offset := Option.some.inj hoffset
  obtain ⟨hslots, -⟩ := hinvariant.slots_eq ⟨"b".toList, 2, 5⟩ (by decide)
  exact ⟨hsize, hinvariant, by decide, hslots, hline⟩

end TagPrompt.CorpusLayout
