import TagPrompt.Proofs.Search.PositionTable

/-! The slots of the position table. A slot is four bytes, the highest first, and every four bytes
are the slot of one offset, so a run of whole slots is known by its offsets. Fetching the positions
of a tag takes one read, of the bytes of its slots, and either all of them exist and their offsets
are the positions, or the fetch fails. -/

namespace TagPrompt

/-- The number that bytes spell, the highest byte first. -/
def bigEndian (bytes : Bytes) : Nat := bytes.foldl (fun n b => 256 * n + b.toNat) 0

/-- The slots of an entry are all in the table, and these are their offsets. -/
def IndexEntry.Holds (entry : IndexEntry) (table : Bytes) (offsets : List Offset) : Prop :=
  ∃ before rest, table = before ++ (offsets.flatMap slotBytes ++ rest) ∧
    before.length = 4 * entry.start.toNat ∧
    entry.stop.toNat = entry.start.toNat + offsets.length

/-! ### One slot -/

theorem length_slotBytes (x : Offset) : (slotBytes x).length = 4 := rfl

theorem bigEndian_slotBytes (x : Offset) : bigEndian (slotBytes x) = x.toNat := by
  have hbyte : ∀ n, n < 256 → n.toUInt8.toNat = n := fun _ hn => UInt8.toNat_ofNat_of_lt' hn
  have hx : x.toNat < 0x100000000 := x.toNat_lt
  simp only [bigEndian, slotBytes, List.foldl_cons, List.foldl_nil]
  rw [hbyte _ (by omega), hbyte _ (by omega), hbyte _ (by omega), hbyte _ (by omega)]
  omega

theorem toNat_slotValue (a b c d : UInt8) :
    (slotValue a b c d).toNat =
      ((a.toNat * 256 + b.toNat) * 256 + c.toNat) * 256 + d.toNat := by
  have ha := a.toNat_lt
  have hb := b.toNat_lt
  have hc := c.toNat_lt
  have hd := d.toNat_lt
  exact UInt32.toNat_ofNat_of_lt' (show _ < 4294967296 by omega)

/-- Four bytes are the slot of the offset that they spell. -/
theorem slotBytes_slotValue (a b c d : UInt8) : slotBytes (slotValue a b c d) = [a, b, c, d] := by
  have hvalue := toNat_slotValue a b c d
  have ha := a.toNat_lt
  have hb := b.toNat_lt
  have hc := c.toNat_lt
  have hd := d.toNat_lt
  have hfirst : (slotValue a b c d).toNat / 0x1000000 = a.toNat := by omega
  have hsecond : (slotValue a b c d).toNat / 0x10000 % 256 = b.toNat := by omega
  have hthird : (slotValue a b c d).toNat / 0x100 % 256 = c.toNat := by omega
  have hlast : (slotValue a b c d).toNat % 256 = d.toNat := by omega
  have hbyte : ∀ byte : UInt8, byte.toNat.toUInt8 = byte := fun _ => UInt8.ofNat_toNat
  simp only [slotBytes, hfirst, hsecond, hthird, hlast, hbyte]

/-! ### Runs of slots -/

variable {bytes tail table : Bytes} {entry : IndexEntry} {offsets : List Offset}
  {source : ByteSource} {limit : Millis}

/-- Whole slots are those of the offsets that are read from them. -/
theorem flatMap_slotValues (h : bytes.length % 4 = 0) :
    (slotValues bytes).flatMap slotBytes = bytes := by
  fun_induction slotValues bytes with
  | case1 a b c d bytes ih =>
      have hrest : bytes.length % 4 = 0 := by
        simp only [List.length_cons] at h
        omega
      rw [List.flatMap_cons, slotBytes_slotValue, ih hrest]
      rfl
  | case2 bytes hshort =>
      -- fewer than four bytes that are whole slots are none
      match bytes with
      | [] => rfl
      | [_] => cases h
      | [_, _] => cases h
      | [_, _, _] => cases h
      | a :: b :: c :: d :: rest => exact absurd rfl (hshort a b c d rest)

theorem slotValues_of_short (h : tail.length < 4) : slotValues tail = [] := by
  fun_cases slotValues tail with
  | case1 a b c d rest =>
      simp only [List.length_cons] at h
      omega
  | case2 => rfl

/-- What is left behind whole slots and fills no slot is nothing. -/
theorem decodePositions_append (h : bytes.length % 4 = 0) (htail : tail.length < 4) :
    decodePositions (bytes ++ tail) = decodePositions bytes := by
  rw [← flatMap_slotValues h, decodePositions, decodePositions,
    slotValues_flatMap_slotBytes_append, slotValues_of_short htail, List.append_nil,
    slotValues_flatMap_slotBytes]

/-! ### The slots of an entry -/

theorem IndexEntry.Holds.covered (h : entry.Holds table offsets) :
    4 * entry.stop.toNat ≤ table.length := by
  obtain ⟨before, rest, rfl, hstart, hstop⟩ := h
  rw [List.length_append, List.length_append, length_flatMap_slotBytes, hstart, hstop,
    IndexEntry.slotWidth]
  omega

theorem IndexEntry.Holds.inside (h : entry.Holds table offsets) : entry.Inside table where
  ordered := by
    obtain ⟨before, rest, -, -, hstop⟩ := h
    rw [UInt32.le_iff_toNat_le, hstop]
    exact Nat.le_add_right entry.start.toNat offsets.length
  covered := h.covered

theorem IndexEntry.Holds.cut_eq (h : entry.Holds table offsets) :
    entry.byteRange.cut table = offsets.flatMap slotBytes := by
  obtain ⟨before, rest, rfl, hstart, hstop⟩ := h
  have hlength : entry.byteRange.length = (offsets.flatMap slotBytes).length := by
    rw [length_flatMap_slotBytes, IndexEntry.byteRange, ByteRange.length, hstop, ← Nat.mul_sub,
      Nat.add_sub_cancel_left]
  rw [ByteRange.cut, hlength, show entry.byteRange.start = before.length from hstart.symm,
    List.drop_left, List.take_left]

/-- A content is what lies before a range, in it and behind it. -/
theorem ByteRange.take_cut_drop {range : ByteRange} (h : range.start ≤ range.stop)
    (content : Bytes) :
    content.take range.start ++ (range.cut content ++ content.drop range.stop) = content := by
  have hbehind : content.drop range.stop = (content.drop range.start).drop range.length := by
    rw [List.drop_drop, length, Nat.add_sub_cancel' h]
  rw [cut, hbehind, List.take_append_drop, List.take_append_drop]

/-- A table that is long enough holds offsets in the slots of an entry. -/
theorem IndexEntry.exists_holds (hordered : entry.start ≤ entry.stop)
    (hcovered : 4 * entry.stop.toNat ≤ table.length) : ∃ offsets, entry.Holds table offsets := by
  have hslotNumbers : entry.start.toNat ≤ entry.stop.toNat := UInt32.le_iff_toNat_le.mp hordered
  have hcut : (entry.byteRange.cut table).length = 4 * (entry.stop.toNat - entry.start.toNat) := by
    have hlength : (entry.byteRange.cut table).length = entry.byteRange.length :=
      ByteRange.length_cut_of_le hcovered
    rwa [ByteRange.length, IndexEntry.byteRange, ← Nat.mul_sub] at hlength
  have hslots : (slotValues (entry.byteRange.cut table)).flatMap slotBytes =
      entry.byteRange.cut table := flatMap_slotValues (by omega)
  have hcount := length_flatMap_slotBytes (slotValues (entry.byteRange.cut table))
  rw [hslots, hcut, IndexEntry.slotWidth] at hcount
  have hrange : entry.byteRange.start ≤ entry.byteRange.stop := byteRange_ordered hordered
  refine ⟨slotValues (entry.byteRange.cut table), table.take entry.byteRange.start,
    table.drop entry.byteRange.stop, ?_, ?_, by omega⟩
  · rw [hslots, ByteRange.take_cut_drop hrange]
  · rw [List.length_take]
    exact Nat.min_eq_left (Nat.le_trans hrange hcovered)

/-! ### Fetching -/

theorem readFor?_eq (entry : IndexEntry) :
    readFor? entry =
      if entry.start = entry.stop then none
      else some ⟨4 * entry.start.toNat, 4 * entry.stop.toNat⟩ := by
  simp only [readFor?, IndexEntry.isEmpty, beq_iff_eq]
  rfl

/-- Of a source, only the read of the slots of an entry matters. -/
theorem fetchPositions_congr {source' : ByteSource}
    (h : ∀ range, readFor? entry = some range → source'.read range = source.read range) :
    fetchPositions source' limit entry = fetchPositions source limit entry := by
  rw [fetchPositions, fetchPositions]
  cases hread : readFor? entry with
  | none => rfl
  | some range => simp only [ByteSource.readWithin, h range hread]

variable (hserves : ∀ range, readFor? entry = some range → source.ServesAt table limit range)

include hserves

theorem fetchPositions_of_holds (h : entry.Holds table offsets) :
    (fetchPositions source limit entry).1 = .positions (.ofList offsets) := by
  rw [fetchPositions_of_servesAt hserves, fetchedOfBytes, if_pos h.inside.length_cut,
    decodePositions, h.cut_eq, slotValues_flatMap_slotBytes]

/-- A table that ends before the slots of an entry do gives none of its positions. -/
theorem fetchPositions_of_short (hordered : entry.start < entry.stop)
    (hshort : table.length < 4 * entry.stop.toNat) :
    (fetchPositions source limit entry).1 =
      .failed (.malformed (.tableLength entry.tag (table.length - 4 * entry.start.toNat)
        (4 * (entry.stop.toNat - entry.start.toNat)))) := by
  have hslots : entry.start.toNat < entry.stop.toNat := UInt32.lt_iff_toNat_lt.mp hordered
  have hlength : entry.byteRange.length = 4 * (entry.stop.toNat - entry.start.toNat) := by
    rw [ByteRange.length, IndexEntry.byteRange, ← Nat.mul_sub, IndexEntry.slotWidth]
  have hexpected : entry.byteCount.toNat = 4 * (entry.stop.toNat - entry.start.toNat) := by
    rw [IndexEntry.toNat_byteCount (UInt32.le_of_lt hordered), hlength]
  have hfound : (entry.byteRange.cut table).length = table.length - 4 * entry.start.toNat := by
    rw [ByteRange.length_cut, hlength]
    show min _ (table.length - 4 * entry.start.toNat) = _
    omega
  have hfew : table.length - 4 * entry.start.toNat ≠
      4 * (entry.stop.toNat - entry.start.toNat) := by
    omega
  rw [fetchPositions_of_servesAt hserves, fetchedOfBytes, hfound, hexpected, if_neg hfew]

/-- An entry that ends before it starts has no positions: no bytes are in its slots, and nearly as
many as can be counted are asked for. -/
theorem fetchPositions_of_inverted (hinverted : entry.stop < entry.start) :
    (fetchPositions source limit entry).1 =
      .failed (.malformed (.tableLength entry.tag 0
        (UInt64.size - 4 * (entry.start.toNat - entry.stop.toNat)))) := by
  have hslots : entry.stop.toNat < entry.start.toNat := UInt32.lt_iff_toNat_lt.mp hinverted
  have hexpected : entry.byteCount.toNat =
      UInt64.size - 4 * (entry.start.toNat - entry.stop.toNat) :=
    IndexEntry.toNat_byteCount_of_inverted hinverted
  have hfound : (entry.byteRange.cut table).length = 0 := by
    rw [ByteRange.length_cut, ByteRange.length, IndexEntry.byteRange, ← Nat.mul_sub,
      Nat.sub_eq_zero_of_le (Nat.le_of_lt hslots), Nat.mul_zero, Nat.zero_min]
  have hmany : 0 ≠ UInt64.size - 4 * (entry.start.toNat - entry.stop.toNat) := by
    have hstart := entry.start.toNat_lt
    simp only [UInt64.size]
    omega
  rw [fetchPositions_of_servesAt hserves, fetchedOfBytes, hfound, hexpected, if_neg hmany]

omit hserves

/-- **Position tables are decoded as they were encoded.** A slot is four bytes, the highest first.
Where a source serves a table, fetching the positions of a tag takes one read, of the bytes of its
slots, or none where it has none: no other read matters, and it takes the time of that one. It gives
the ascending list of the offsets that the table holds in these slots, wherever they stand and
whatever follows them; if the slots are not all in the table it fails and says how many of their
bytes exist. Decoding bytes takes no notice of up to three at the end that fill no slot. -/
theorem positions_are_decoded_as_encoded (source : ByteSource) (limit : Millis) (table : Bytes)
    (entry : IndexEntry)
    (hserves : ∀ range, readFor? entry = some range → source.ServesAt table limit range) :
    (∀ x, (slotBytes x).length = 4 ∧ bigEndian (slotBytes x) = x.toNat) ∧
      (readFor? entry =
        if entry.start = entry.stop then none
        else some ⟨4 * entry.start.toNat, 4 * entry.stop.toNat⟩) ∧
      (∀ source' : ByteSource,
        (∀ range, readFor? entry = some range → source'.read range = source.read range) →
          fetchPositions source' limit entry = fetchPositions source limit entry) ∧
      ((fetchPositions source limit entry).2 =
        ((readFor? entry).map fun range => (source.readWithin limit range).took).getD 0) ∧
      (∀ offsets, entry.Holds table offsets →
        ∃ set, (fetchPositions source limit entry).1 = .positions set ∧
          set.values.Pairwise (· < ·) ∧ ∀ x, x ∈ set.values ↔ x ∈ offsets) ∧
      (entry.start < entry.stop →
        ((∃ set, (fetchPositions source limit entry).1 = .positions set) ↔
          4 * entry.stop.toNat ≤ table.length) ∧
        (4 * entry.stop.toNat ≤ table.length → ∃ offsets, entry.Holds table offsets) ∧
        (table.length < 4 * entry.stop.toNat →
          (fetchPositions source limit entry).1 =
            .failed (.malformed (.tableLength entry.tag (table.length - 4 * entry.start.toNat)
              (4 * (entry.stop.toNat - entry.start.toNat)))))) ∧
      ∀ bytes tail : Bytes, bytes.length % 4 = 0 → tail.length < 4 →
        decodePositions (bytes ++ tail) = decodePositions bytes := by
  refine ⟨fun x => ⟨length_slotBytes x, bigEndian_slotBytes x⟩, readFor?_eq entry,
    fun _ => fetchPositions_congr, ?_, ?_, ?_, fun _ _ => decodePositions_append⟩
  · rw [fetchPositions]
    cases readFor? entry <;> rfl
  · intro offsets hholds
    exact ⟨.ofList offsets, fetchPositions_of_holds hserves hholds,
      (PositionSet.ofList offsets).ascending, fun _ => PositionSet.mem_ofList⟩
  · intro hordered
    refine ⟨⟨?_, ?_⟩, IndexEntry.exists_holds (UInt32.le_of_lt hordered),
      fetchPositions_of_short hserves hordered⟩
    · rintro ⟨set, hset⟩
      by_contra hshort
      rw [fetchPositions_of_short hserves hordered (Nat.not_le.mp hshort)] at hset
      cases hset
    · intro hcovered
      obtain ⟨offsets, hholds⟩ := IndexEntry.exists_holds (UInt32.le_of_lt hordered) hcovered
      exact ⟨_, fetchPositions_of_holds hserves hholds⟩

/-- The slots of a tag in the middle of a table, with an offset that is repeated, and those of a tag
in which the table ends. -/
theorem positions_are_decoded_as_encoded_in_short_table :
    let table : Bytes := slotBytes 9 ++ ([0x01020304, 2, 0x01020304].flatMap slotBytes ++ [0, 7])
    let source : ByteSource := MemorySource.source { content := table, delay := 3 }
    let whole : IndexEntry := ⟨['a'], 1, 4⟩
    let cut : IndexEntry := ⟨['b'], 3, 5⟩
    source.Serves table 5 ∧
      (∃ set, fetchPositions source 5 whole = (.positions set, 3) ∧
        set.values = [2, 0x01020304]) ∧
      (fetchPositions source 5 cut).1 = .failed (.malformed (.tableLength ['b'] 6 8)) := by
  intro table source whole cut
  have hserves : source.Serves table 5 := MemorySource.serves (by decide)
  obtain ⟨-, -, -, htook, hholds, -⟩ :=
    positions_are_decoded_as_encoded source 5 table whole (hserves.slots (by decide))
  obtain ⟨set, hset, -, hmem⟩ :=
    hholds [0x01020304, 2, 0x01020304] ⟨slotBytes 9, [0, 7], rfl, rfl, rfl⟩
  have hvalues : set = .ofList [2, 0x01020304] := by
    apply PositionSet.ext_mem
    intro x
    rw [PositionSet.mem_def, hmem, PositionSet.mem_ofList]
    grind
  obtain ⟨-, -, -, -, -, hordered, -⟩ :=
    positions_are_decoded_as_encoded source 5 table cut (hserves.slots (by decide))
  refine ⟨hserves, ⟨set, Prod.ext hset htook, by rw [hvalues]; rfl⟩, ?_⟩
  exact (hordered (by decide)).2.2 (by decide)

end TagPrompt
