import Mathlib.Data.Nat.ModEq
import TagPrompt.Proofs.CorpusLayout.Invariant
import TagPrompt.Proofs.Files.Tree
import TagPrompt.Proofs.Search.IndexFile

/-! The index file of a laid out corpus. Its text is read as the index that was written, whatever
characters the tags have, as long as the slots of the table can be numbered; beyond that the number
of some slot wraps, and the entry that it ends is refused. In a directory the files lie at different
places, whatever the directory is called, so each of them keeps what was written to it. -/

namespace TagPrompt

variable {entries : List IndexEntry} {entry : IndexEntry} {prompts : List Text}
  {groups : List (Text × List Offset)}

namespace TagIndex

theorem written_documentOf (entries : List IndexEntry) :
    ∃ members, documentOf entries = .object members ∧
      List.Forall₂ IndexEntry.WrittenAs entries members :=
  ⟨_, rfl, List.forall₂_map_right_iff.mpr
    (List.forall₂_same.mpr fun _ _ => ⟨rfl, .inr rfl⟩)⟩

/-- The text of entries is read by their last ranges. -/
theorem decidedByLast_render_documentOf (entries : List IndexEntry) :
    DecidedByLast entries (parse (documentOf entries).render) := by
  obtain ⟨members, hdocument, hwritten⟩ := written_documentOf entries
  rw [hdocument]
  exact decidedByLast_of_document (JsonValue.parse_render (legible_of_written hwritten))
    (entriesOfDocument?_of_written hwritten)

/-- Entries that are in order are read back. -/
theorem parse_render_documentOf (hordered : ∀ entry ∈ entries, entry.start ≤ entry.stop) :
    parse (documentOf entries).render = .ok (ofEntries entries) := by
  obtain ⟨members, hdocument, hwritten⟩ := written_documentOf entries
  have hread : JsonValue.parse (documentOf entries).render = some (.object members) := by
    rw [hdocument]
    exact JsonValue.parse_render (legible_of_written hwritten)
  have hnone : (ofEntries entries).firstInverted? = none := by
    refine firstInverted?_eq_none_iff.mpr (forall_stored_iff.mpr fun tag entry hlast => ?_)
    exact hordered entry (mem_of_mem_lastOf? hlast)
  exact parse_of_none_inverted hread (entriesOfDocument?_of_written hwritten) hnone

end TagIndex

namespace CorpusLayout

theorem start_le_stop (hslots : (ofPrompts prompts).Indexable)
    (hentry : entry ∈ (ofPrompts prompts).entries) : entry.start ≤ entry.stop := by
  obtain ⟨offsets, -, hholds⟩ := exists_group_holds hslots hentry
  exact hholds.inside.ordered

theorem parse_indexText (hslots : (ofPrompts prompts).Indexable) :
    TagIndex.parse (ofPrompts prompts).indexText = .ok (ofPrompts prompts).index :=
  TagIndex.parse_render_documentOf fun _ => start_le_stop hslots

/-! ### Slots without numbers -/

/-- Where there are more slots than numbers for them, the entry whose slots cross the last number
ends before it starts. -/
theorem exists_inverted_entriesFrom {start : Nat} (hstart : start < UInt32.size)
    (hfew : ∀ group ∈ groups, group.2.length < UInt32.size)
    (hmany : UInt32.size ≤ start + (groups.flatMap Prod.snd).length) :
    ∃ entry ∈ entriesFrom start groups, entry.stop < entry.start := by
  induction groups generalizing start with
  | nil => exact absurd hmany (Nat.not_le.mpr hstart)
  | cons group groups ih =>
      obtain ⟨tag, offsets⟩ := group
      obtain ⟨hoffsets, hgroups⟩ := List.forall_mem_cons.mp hfew
      rw [List.flatMap_cons, List.length_append, ← Nat.add_assoc] at hmany
      dsimp only at hoffsets hmany
      by_cases hcrosses : start + offsets.length < UInt32.size
      · obtain ⟨entry, hentry, hinverted⟩ := ih hcrosses hgroups hmany
        exact ⟨entry, List.mem_cons_of_mem _ hentry, hinverted⟩
      · refine ⟨_, List.mem_cons_self, UInt32.lt_iff_toNat_lt.mpr ?_⟩
        have hstop : (start + offsets.length).toUInt32.toNat =
            (start + offsets.length) % UInt32.size := UInt32.toNat_ofNat'
        rw [hstop, show start.toUInt32.toNat = start from UInt32.toNat_ofNat_of_lt' hstart]
        simp only [UInt32.size] at *
        omega

/-- The index file of more slots than there are numbers is refused. -/
theorem parse_indexText_of_not_indexable (hslots : ¬(ofPrompts prompts).Indexable)
    (hfew : ∀ group ∈ (ofPrompts prompts).groups, group.2.length < UInt32.size) :
    ∃ tag start stop, TagIndex.parse (ofPrompts prompts).indexText =
      .error (.invalidRange tag start stop) := by
  have hmany : UInt32.size ≤ 0 + ((ofPrompts prompts).groups.flatMap Prod.snd).length := by
    rwa [Indexable, length_positions, Nat.mul_div_cancel_left _ (by decide), Nat.not_lt,
      ← Nat.zero_add (List.length _)] at hslots
  obtain ⟨entry, hentry, hinverted⟩ := exists_inverted_entriesFrom (by decide) hfew hmany
  -- no tag is repeated, so the inverted entry is the last of its tag
  have hlast : entry ∈ IndexEntry.lastOf? (ofPrompts prompts).entries entry.tag := by
    rw [← TagIndex.get?_ofEntries_eq_lastOf?]
    exact (get?_index_eq_some_iff prompts).mpr ⟨hentry, rfl⟩
  have hdecided := TagIndex.decidedByLast_render_documentOf (ofPrompts prompts).entries
  cases houtcome : TagIndex.parse (TagIndex.documentOf (ofPrompts prompts).entries).render with
  | ok index =>
      have hordered := hdecided.accepted_iff.mp ⟨index, houtcome⟩ entry.tag entry hlast
      exact absurd hordered (UInt32.not_le.mpr hinverted)
  | error error =>
      obtain ⟨tag, found, -, -, rfl⟩ := hdecided.rejected error houtcome
      exact ⟨tag, found.start, found.stop, houtcome⟩

/-- **An index file is accepted by the last range of every tag.** Ranges of tags that are written as
an object, with tags repeated or not, are accepted if and only if the last one of every tag does not
end before it starts, and else a tag whose last range does is named; what is accepted has the last
range of every tag and nothing else. So the index file of prompts is read as their index as long as
the slots of their tags can be numbered, which those of a corpus below 2^32 bytes can. -/
theorem index_file_by_last_ranges :
    (∀ entries members, List.Forall₂ IndexEntry.WrittenAs entries members →
        JsonValue.parse (JsonValue.object members).render = some (.object members) ∧
        ∀ text, JsonValue.parse text = some (.object members) →
          TagIndex.DecidedByLast entries (TagIndex.parse text)) ∧
    (∀ prompts, (ofPrompts prompts).Indexable →
      TagIndex.parse (ofPrompts prompts).indexText = .ok (ofPrompts prompts).index) ∧
    ∀ prompts, (ofPrompts prompts).corpus.length < UInt32.size →
      (ofPrompts prompts).Indexable := by
  refine ⟨fun entries members hwritten => ⟨?_, fun text htext => ?_⟩, fun prompts => ?_,
    fun prompts => indexable_of_size⟩
  · exact JsonValue.parse_render (TagIndex.legible_of_written hwritten)
  · exact TagIndex.decidedByLast_of_document htext
      (TagIndex.entriesOfDocument?_of_written hwritten)
  · exact parse_indexText

/-- A range that a later one of its tag hides may end before it starts; the later one may not. -/
theorem index_file_with_repeated_tags :
    let member : IndexEntry → Option Text × JsonValue := fun entry =>
      (some entry.tag, .object [(some TagIndex.startName, TagIndex.numberDocument entry.start),
        (some TagIndex.stopName, TagIndex.numberDocument entry.stop)])
    let inverted : IndexEntry := ⟨"b".toList, 5, 2⟩
    let quoted : IndexEntry := ⟨"\"\n".toList, 3, 7⟩
    let valid : IndexEntry := ⟨"b".toList, 0, 3⟩
    let prompts := ["say \"hi\", a\\b".toList, "a\\b,é".toList]
    (∃ index, TagIndex.parse (JsonValue.object ([inverted, quoted, valid].map member)).render =
        .ok index ∧
      index.lookup "b".toList = .ok valid ∧ index.lookup "\"\n".toList = .ok quoted ∧
      index.lookup "c".toList = .error (.tagNotFound "c".toList)) ∧
    TagIndex.parse (JsonValue.object ([valid, inverted].map member)).render =
      .error (.invalidRange "b".toList 5 2) ∧
    (ofPrompts prompts).corpus.length < UInt32.size ∧
    TagIndex.parse (ofPrompts prompts).indexText = .ok (ofPrompts prompts).index := by
  intro member inverted quoted valid prompts
  have hwritten : ∀ entries : List IndexEntry,
      List.Forall₂ IndexEntry.WrittenAs entries (entries.map member) := fun entries =>
    List.forall₂_map_right_iff.mpr (List.forall₂_same.mpr fun _ _ => ⟨rfl, .inl rfl⟩)
  have hread : ∀ entries : List IndexEntry, TagIndex.DecidedByLast entries
      (TagIndex.parse (JsonValue.object (entries.map member)).render) := by
    intro entries
    obtain ⟨hback, hdecided⟩ := index_file_by_last_ranges.1 entries _ (hwritten entries)
    exact hdecided _ hback
  have haccepted := hread [inverted, quoted, valid]
  have hrefused := hread [valid, inverted]
  have hsize : (ofPrompts prompts).corpus.length < UInt32.size := by decide
  refine ⟨?_, ?_, hsize,
    index_file_by_last_ranges.2.1 prompts (index_file_by_last_ranges.2.2 prompts hsize)⟩
  · have hlast : ∀ tag, ∀ entry ∈ IndexEntry.lastOf? [inverted, quoted, valid] tag,
        entry.start ≤ entry.stop :=
      TagIndex.forall_stored_iff.mp (by decide)
    obtain ⟨index, hindex⟩ := haccepted.accepted_iff.mpr hlast
    have hlookup := haccepted.lookup_eq index hindex
    exact ⟨index, hindex, hlookup _, hlookup _, hlookup _⟩
  · cases houtcome : TagIndex.parse (JsonValue.object ([valid, inverted].map member)).render with
    | ok index =>
        have hordered : inverted.start ≤ inverted.stop :=
          hrefused.accepted_iff.mp ⟨index, houtcome⟩ "b".toList inverted rfl
        exact absurd hordered (by decide)
    | error error =>
        obtain ⟨tag, entry, hlast, -, rfl⟩ := hrefused.rejected error houtcome
        obtain ⟨hstored, rfl⟩ := TagIndex.mem_lastOf?_iff.mp hlast
        obtain rfl : entry = inverted := List.mem_singleton.mp hstored
        rfl

/-! ### A corpus with too many slots -/

/-- A prompt of five bytes with its line end, and two tags. -/
def pairLine : Text := "a,bc".toList

/-- The offsets of the first lines of a corpus that repeats it. -/
def pairOffsets (n : Nat) : List Offset := (List.range n).map fun i => (5 * i).toUInt32

theorem length_pairOffsets (n : Nat) : (pairOffsets n).length = n := by
  rw [pairOffsets, List.length_map, List.length_range]

theorem pairOffsets_succ (n : Nat) : pairOffsets (n + 1) = pairOffsets n ++ [(5 * n).toUInt32] := by
  rw [pairOffsets, pairOffsets, List.range_succ, List.map_append, List.map_singleton]

/-- The offset of the next line is a new one until there are as many lines as offsets. -/
theorem not_mem_pairOffsets {n : Nat} (hn : n < UInt32.size) :
    (5 * n).toUInt32 ∉ pairOffsets n := by
  have hwraps : ∀ m : Nat, m.toUInt32.toNat = m % UInt32.size := fun _ => UInt32.toNat_ofNat'
  intro hmem
  obtain ⟨i, hi, hsame⟩ := List.mem_map.mp hmem
  have hless : i < n := List.mem_range.mp hi
  rw [← UInt32.toNat_inj, hwraps, hwraps] at hsame
  -- five has an inverse among the offsets
  have hequal : i ≡ n [MOD UInt32.size] := Nat.ModEq.cancel_left_of_coprime (by decide) hsame
  exact Nat.ne_of_lt hless (hequal.eq_of_lt_of_lt (hless.trans hn) hn)

theorem noteLine_pairLine {offsets : List Offset} {x : Offset} (hnew : x ∉ offsets) :
    noteLine [(['a'], offsets), (['b', 'c'], offsets)] (x, pairLine) =
      [(['a'], offsets ++ [x]), (['b', 'c'], offsets ++ [x])] := by
  have hparts : Text.parts pairLine = [['a'], ['b', 'c']] := by decide
  simp [noteLine, hparts, note, Text.precedes, hnew]

theorem foldl_noteLine_pairLines {k n : Nat} (h : k + n ≤ UInt32.size) :
    (linesFrom (5 * k) (List.replicate n pairLine)).foldl noteLine
        [(['a'], pairOffsets k), (['b', 'c'], pairOffsets k)] =
      [(['a'], pairOffsets (k + n)), (['b', 'c'], pairOffsets (k + n))] := by
  induction n generalizing k with
  | zero => rfl
  | succ n ih =>
      have hwidth : 5 * k + (lineBytes pairLine).length = 5 * (k + 1) := by
        rw [show (lineBytes pairLine).length = 5 by decide]
        omega
      have hlines : k + 1 + n = k + (n + 1) := by omega
      rw [List.replicate_succ, linesFrom, List.foldl_cons,
        noteLine_pairLine (not_mem_pairOffsets (by omega)), ← pairOffsets_succ, hwidth,
        ih (by omega), hlines]

theorem groups_pairLines {n : Nat} (hsome : 0 < n) (hfew : n ≤ UInt32.size) :
    (ofPrompts (List.replicate n pairLine)).groups =
      [(['a'], pairOffsets n), (['b', 'c'], pairOffsets n)] := by
  obtain ⟨n, rfl⟩ := Nat.exists_eq_add_of_lt hsome
  have hfirst : noteLine [] ((0 : Nat).toUInt32, pairLine) =
      [(['a'], pairOffsets 1), (['b', 'c'], pairOffsets 1)] := by decide
  have hwidth : 0 + (lineBytes pairLine).length = 5 * 1 := by decide
  have hlines : 1 + n = 0 + n + 1 := by omega
  rw [ofPrompts, List.replicate_succ, linesFrom, List.foldl_cons, hfirst, hwidth, Nat.zero_add n,
    foldl_noteLine_pairLines (by omega), hlines, Nat.zero_add n]

/-- So many lines with two tags have an index, whose file is refused. -/
theorem indexText_pairLines {n : Nat} (hfew : n < UInt32.size) (hmany : UInt32.size ≤ 2 * n) :
    (∃ tag start stop, TagIndex.parse (ofPrompts (List.replicate n pairLine)).indexText =
      .error (.invalidRange tag start stop)) ∧
    ∃ entry, (ofPrompts (List.replicate n pairLine)).index.lookup ['a'] = .ok entry := by
  have hsome : 0 < n := by
    simp only [UInt32.size] at hmany
    omega
  have hgroups := groups_pairLines hsome (Nat.le_of_lt hfew)
  refine ⟨parse_indexText_of_not_indexable ?_ ?_, ?_⟩
  · rw [Indexable, length_positions, Nat.mul_div_cancel_left _ (by decide), hgroups]
    simp only [List.flatMap_cons, List.flatMap_nil, List.length_append, List.length_nil,
      length_pairOffsets]
    omega
  · rw [hgroups]
    simp only [List.forall_mem_cons, length_pairOffsets, List.not_mem_nil, false_implies,
      implies_true, and_true]
    exact ⟨hfew, hfew⟩
  · have htag : ['a'] ∈ (ofPrompts (List.replicate n pairLine)).entries.map IndexEntry.tag := by
      rw [map_tag_entries, hgroups]
      exact List.mem_cons_self
    obtain ⟨entry, hentry, hof⟩ := List.mem_map.mp htag
    refine ⟨entry, ?_⟩
    rw [TagIndex.lookup, (get?_index_eq_some_iff _).mpr ⟨hentry, hof⟩]

/-- Neither is a number of more than 32 bits taken in a file, nor the index file of a corpus with
2^31 lines of two tags, which has an index all the same. -/
theorem index_file_of_wide_numbers_is_refused :
    TagIndex.parse "\x7b\"a\":\x7b\"start\":0,\"end\":4294967296\x7d\x7d".toList = .error .json ∧
    (∃ tag start stop,
      TagIndex.parse (ofPrompts (List.replicate 2147483648 pairLine)).indexText =
        .error (.invalidRange tag start stop)) ∧
    ∃ entry, (ofPrompts (List.replicate 2147483648 pairLine)).index.lookup ['a'] = .ok entry :=
  ⟨by decide +kernel, indexText_pairLines (by decide) (by decide)⟩

/-! ### The files in a directory -/

open FileTree

variable {layout : CorpusLayout} {directory path : Text} {files : FileTree} {node : FileNode}

theorem lookup_positions (layout : CorpusLayout) (directory : Text) (files : FileTree) :
    (layout.writeTo (.inDirectory directory) files).nodes.lookup
      (located (Utf8.encode (CorpusPaths.inDirectory directory).positions)) =
        some (.file layout.positions) := by
  -- neither file that is written later is at the place of the position table
  rw [writeTo, lookup_put_of_ne, lookup_put_of_ne, lookup_put_self]
  · exact located_joinPath_ne (by decide) (by decide) (by decide)
  · exact located_joinPath_ne (by decide) (by decide) (by decide)

/-- A path to the position table leads to the table of the layout. -/
theorem eq_of_find_positions
    (h : (layout.writeTo (.inDirectory directory) files).find path =
      .ok (located (Utf8.encode (CorpusPaths.inDirectory directory).positions), node)) :
    node = .file layout.positions :=
  eq_of_find_of_lookup h (lookup_positions layout directory files)

/-- A path to the tag index leads to the index of the layout. -/
theorem eq_of_find_index
    (h : (layout.writeTo (.inDirectory directory) files).find path =
      .ok (located (Utf8.encode (CorpusPaths.inDirectory directory).index), node)) :
    node = .file (Utf8.encode layout.indexText) :=
  eq_of_find_of_lookup h (lookup_put_self _ _ _)

end CorpusLayout
end TagPrompt
