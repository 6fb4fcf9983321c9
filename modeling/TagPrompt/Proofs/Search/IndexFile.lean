import TagPrompt.Proofs.Json.RoundTrip
import TagPrompt.Proofs.Search.TagIndex
import TagPrompt.Search.Resolver

/-! The index file. Of several ranges that a file has for one tag the last one counts: it alone is
checked, and it alone is found. -/

namespace TagPrompt

/-- The last of the entries of a tag. -/
def IndexEntry.lastOf? (entries : List IndexEntry) (tag : Text) : Option IndexEntry :=
  (entries.filter (TagIndex.isOf tag)).getLast?

/-- A member of the file that spells out an entry, its two fields in either order. -/
structure IndexEntry.WrittenAs (entry : IndexEntry) (member : Option Text × JsonValue) : Prop where
  key : member.1 = some entry.tag
  value :
    let start := (some TagIndex.startName, TagIndex.numberDocument entry.start)
    let stop := (some TagIndex.stopName, TagIndex.numberDocument entry.stop)
    member.2 = .object [start, stop] ∨ member.2 = .object [stop, start]

namespace TagIndex

/-- What becomes of a file with these entries is decided by the last one of each tag. -/
structure DecidedByLast (entries : List IndexEntry) (outcome : Except DataError TagIndex) :
    Prop where
  accepted_iff : (∃ index, outcome = .ok index) ↔
    ∀ tag, ∀ entry ∈ IndexEntry.lastOf? entries tag, entry.start ≤ entry.stop
  rejected : ∀ error, outcome = .error error →
    ∃ tag, ∃ entry ∈ IndexEntry.lastOf? entries tag, entry.stop < entry.start ∧
      error = .invalidRange tag entry.start entry.stop
  lookup_eq : ∀ index, outcome = .ok index → ∀ tag,
    index.lookup tag =
      (IndexEntry.lastOf? entries tag).elim (.error (.tagNotFound tag)) .ok
  /-- No difference of two slots or of two bytes wraps. -/
  ordered : ∀ index, outcome = .ok index → ∀ entry ∈ index.entries,
    entry.start ≤ entry.stop ∧ entry.start.toNat + entry.size.toNat = entry.stop.toNat ∧
      entry.byteRange.start + 4 * entry.size.toNat = entry.byteRange.stop ∧
        entry.byteRange.length = 4 * entry.size.toNat

variable {entries : List IndexEntry} {entry : IndexEntry} {tag : Text} {index : TagIndex}
  {member : Option Text × JsonValue} {members : List (Option Text × JsonValue)} {text : Text}

/-! ### The entries that count -/

theorem get?_ofEntries_eq_lastOf? (entries : List IndexEntry) (tag : Text) :
    (ofEntries entries).get? tag = IndexEntry.lastOf? entries tag := by
  rw [get?_ofEntries, IndexEntry.lastOf?, List.getLast?_filter]

theorem nodup_insert (h : (index.entries.map IndexEntry.tag).Nodup) (entry : IndexEntry) :
    ((index.insert entry).entries.map IndexEntry.tag).Nodup := by
  rw [insert, List.map_cons, List.nodup_cons]
  refine ⟨?_, h.sublist (List.filter_sublist.map _)⟩
  intro hmem
  obtain ⟨known, hknown, htag⟩ := List.mem_map.mp hmem
  exact bne_iff_ne.mp (List.mem_filter.mp hknown).2 htag

theorem nodup_ofEntries (entries : List IndexEntry) :
    ((ofEntries entries).entries.map IndexEntry.tag).Nodup :=
  List.foldlRecOn (motive := fun index : TagIndex => (index.entries.map IndexEntry.tag).Nodup)
    entries insert List.nodup_nil fun _ h entry _ => nodup_insert h entry

/-- An index stores the last entries of the tags and no others. -/
theorem mem_lastOf?_iff :
    entry ∈ IndexEntry.lastOf? entries tag ↔
      entry ∈ (ofEntries entries).entries ∧ entry.tag = tag := by
  rw [← get?_ofEntries_eq_lastOf?, Option.mem_def, get?_eq,
    find?_isOf_eq_some_iff (nodup_ofEntries entries)]

theorem mem_of_mem_lastOf? (h : entry ∈ IndexEntry.lastOf? entries tag) : entry ∈ entries :=
  List.mem_of_mem_filter (List.mem_of_getLast? h)

theorem forall_stored_iff {P : IndexEntry → Prop} :
    (∀ entry ∈ (ofEntries entries).entries, P entry) ↔
      ∀ tag, ∀ entry ∈ IndexEntry.lastOf? entries tag, P entry := by
  constructor
  · exact fun h tag entry hlast => h entry (mem_lastOf?_iff.mp hlast).1
  · exact fun h entry hentry => h entry.tag entry (mem_lastOf?_iff.mpr ⟨hentry, rfl⟩)

theorem lookup_ofEntries (entries : List IndexEntry) (tag : Text) :
    (ofEntries entries).lookup tag =
      (IndexEntry.lastOf? entries tag).elim (.error (.tagNotFound tag)) .ok := by
  rw [lookup, get?_ofEntries_eq_lastOf?]
  cases IndexEntry.lastOf? entries tag <;> rfl

/-! ### Members and entries -/

theorem word?_numberDocument (n : UInt32) : (numberDocument n).word? = some n := by
  have hdigits : (Text.ofNat n.toNat).all Text.isDigit = true :=
    List.all_eq_true.mpr fun _ => Text.isDigit_of_mem_ofNat
  have hword : n.toNat < UInt32.size := n.toNat_lt
  simp [numberDocument, JsonValue.word?, hdigits, Text.decimal_ofNat, hword]

theorem entryOfMember?_of_writtenAs (h : entry.WrittenAs member) :
    entryOfMember? member = some entry := by
  obtain ⟨key, value⟩ := member
  obtain ⟨rfl, rfl | rfl⟩ := h
  all_goals
    change (numberDocument entry.start).word?.bind (fun start =>
      (numberDocument entry.stop).word?.bind fun stop => some ⟨entry.tag, start, stop⟩) = some entry
    rw [word?_numberDocument, word?_numberDocument]
    rfl

theorem entriesOfDocument?_of_written (h : List.Forall₂ IndexEntry.WrittenAs entries members) :
    entriesOfDocument? (.object members) = some entries := by
  rw [entriesOfDocument?]
  induction h with
  | nil => rfl
  | cons hentry _ ih => simp [List.mapM_cons, entryOfMember?_of_writtenAs hentry, ih]

theorem legible_of_writtenAs (h : entry.WrittenAs member) :
    member.1.isSome = true ∧ member.2.Legible := by
  obtain ⟨key, value⟩ := member
  obtain ⟨rfl, rfl | rfl⟩ := h
  all_goals
    refine ⟨rfl, .object ?_ ?_⟩
    · simp
    · simp [numberDocument, JsonValue.Legible.number]

theorem legible_of_written (h : List.Forall₂ IndexEntry.WrittenAs entries members) :
    (JsonValue.object members).Legible := by
  have hmembers : ∀ m ∈ members, m.1.isSome = true ∧ m.2.Legible := by
    induction h with
    | nil => exact nofun
    | cons hentry _ ih => exact List.forall_mem_cons.mpr ⟨legible_of_writtenAs hentry, ih⟩
  exact .object (fun m hm => (hmembers m hm).1) fun m hm => (hmembers m hm).2

/-! ### Reading -/

theorem parse_of_inverted (h : JsonValue.parse text = some (.object members))
    (hentries : entriesOfDocument? (.object members) = some entries)
    (hinverted : (ofEntries entries).firstInverted? = some entry) :
    parse text = .error (.invalidRange entry.tag entry.start entry.stop) := by
  simp only [parse, h, Option.bind_some, hentries, hinverted]

theorem parse_of_none_inverted (h : JsonValue.parse text = some (.object members))
    (hentries : entriesOfDocument? (.object members) = some entries)
    (hnone : (ofEntries entries).firstInverted? = none) : parse text = .ok (ofEntries entries) := by
  simp only [parse, h, Option.bind_some, hentries, hnone]

theorem firstInverted?_eq_none_iff :
    index.firstInverted? = none ↔ ∀ entry ∈ index.entries, entry.start ≤ entry.stop := by
  simp [firstInverted?, List.find?_eq_none]

theorem ordered_of_le (h : entry.start ≤ entry.stop) :
    entry.start.toNat + entry.size.toNat = entry.stop.toNat ∧
      entry.byteRange.start + 4 * entry.size.toNat = entry.byteRange.stop ∧
        entry.byteRange.length = 4 * entry.size.toNat := by
  have hslots : entry.start.toNat ≤ entry.stop.toNat := UInt32.le_iff_toNat_le.mp h
  simp only [IndexEntry.size, IndexEntry.byteRange, IndexEntry.slotWidth, ByteRange.length,
    UInt32.toNat_sub_of_le _ _ h]
  omega

theorem decidedByLast_of_document (h : JsonValue.parse text = some (.object members))
    (hentries : entriesOfDocument? (.object members) = some entries) :
    DecidedByLast entries (parse text) := by
  cases hinverted : (ofEntries entries).firstInverted? with
  | some entry =>
      rw [parse_of_inverted h hentries hinverted]
      have hstored : entry ∈ (ofEntries entries).entries := List.mem_of_find?_eq_some hinverted
      have hlt : entry.stop < entry.start := of_decide_eq_true (List.find?_some
        (p := fun entry : IndexEntry => entry.stop < entry.start) hinverted)
      have hlast := mem_lastOf?_iff.mpr ⟨hstored, rfl⟩
      exact
        { accepted_iff := by
            refine iff_of_false (fun ⟨_, hok⟩ => nomatch hok) fun hall => ?_
            exact absurd (hall entry.tag entry hlast) (UInt32.not_le.mpr hlt)
          rejected := by
            rintro _ ⟨⟩
            exact ⟨entry.tag, entry, hlast, hlt, rfl⟩
          lookup_eq := nofun
          ordered := nofun }
  | none =>
      rw [parse_of_none_inverted h hentries hinverted]
      have hordered := firstInverted?_eq_none_iff.mp hinverted
      exact
        { accepted_iff := iff_of_true ⟨_, rfl⟩ (forall_stored_iff.mp hordered)
          rejected := nofun
          lookup_eq := by
            rintro _ ⟨⟩
            exact lookup_ofEntries entries
          ordered := by
            rintro _ ⟨⟩ entry hentry
            exact ⟨hordered entry hentry, ordered_of_le (hordered entry hentry)⟩ }

end TagIndex
end TagPrompt
