import Mathlib.Order.Bounds.Basic
import TagPrompt.CommandLine.Run
import TagPrompt.Proofs.CorpusLayout.IndexFile
import TagPrompt.Proofs.Source.Agreement

/-! The lookup command. Over the files that prompts are laid out as it tells how many prompts have a
tag, and where the first and the last of their lines start. -/

namespace TagPrompt

/-- Settings with paths to the position table and the tag index of a corpus, however these are
spelled. -/
structure Settings.PointAt (settings : Settings) (files : FileTree) (paths : CorpusPaths) :
    Prop where
  noWebAddress : isWebAddress settings.source.positionsUrl = false
  positions : ∃ node, files.find settings.source.positionsUrl =
    .ok (FileTree.located (Utf8.encode paths.positions), node)
  index : ∃ node, files.find settings.data.tagIndexPath =
    .ok (FileTree.located (Utf8.encode paths.index), node)

variable {env : Environment} {settings : Settings} {prompts : List Text} {tag directory : Text}
  {files : FileTree} {entry : IndexEntry} {place : FilePath} {table : Bytes} {set : PositionSet}

/-! ### What the command reads -/

theorem TagIndex.load_of_find {path text : Text}
    (h : files.find path = .ok (place, .file (Utf8.encode text))) :
    TagIndex.load files path = TagIndex.parse text := by
  rw [load, readDataFile, FileTree.readText_of_find h]
  rfl

theorem LocalFile.servesAt {path : Text} {range : ByteRange}
    (hfind : files.find path = .ok (place, .file table)) (hposition : range.start < positionLimit)
    (hbuffer : range.length ≤ bufferLimit) (limit : Millis) :
    (source files path).ServesAt table limit range := by
  rw [ByteSource.ServesAt, ByteSource.readWithin, read_file hfind hposition hbuffer,
    ByteRange.cut_eq_positioned]
  exact congrArg Attempt.reading (if_neg (Nat.not_lt_zero limit))

/-- The slots of an entry are within what a file and a buffer can hold. -/
theorem IndexEntry.readable (entry : IndexEntry) :
    entry.byteRange.start < LocalFile.positionLimit ∧
      entry.byteRange.length ≤ LocalFile.bufferLimit := by
  have hstart := entry.start.toNat_lt
  have hstop := entry.stop.toNat_lt
  simp only [byteRange, slotWidth, ByteRange.length, LocalFile.positionLimit,
    LocalFile.bufferLimit, UInt64.size]
  omega

theorem Environment.fetch_of_find (hlocal : isWebAddress settings.source.positionsUrl = false)
    (hfind : env.files.find settings.source.positionsUrl = .ok (place, .file table))
    (hinside : entry.Inside table) :
    env.fetch settings entry = .positions (decodePositions (entry.byteRange.cut table)) := by
  have hsource : openSource env.files env.web settings.source.positionsUrl
      settings.source.timeout = LocalFile.source env.files settings.source.positionsUrl := by
    rw [openSource, hlocal, if_neg Bool.false_ne_true]
  have hserves : ∀ range, readFor? entry = some range →
      (LocalFile.source env.files settings.source.positionsUrl).ServesAt table
        settings.source.timeout range := by
    intro range hrange
    rw [eq_byteRange_of_readFor? hrange]
    exact LocalFile.servesAt hfind entry.readable.1 entry.readable.2 _
  simp only [fetch, hsource, fetchPositions_of_servesAt hserves, fetchedOfBytes,
    if_pos hinside.length_cut]

/-! ### What the command tells -/

namespace CorpusLayout

/-- Where the lines of the prompts with a tag start. -/
def lineStartsWith (prompts : List Text) (tag : Text) : Set Nat :=
  {n | ∃ i prompt, prompts[i]? = some prompt ∧ tag ∈ prompt.trimmedParts ∧
    n = lineStart prompts i}

/-- The offsets of a tag are where these lines start. -/
theorem mem_lineStartsWith_iff (hsize : (ofPrompts prompts).corpus.length < UInt32.size) {n : Nat} :
    n ∈ lineStartsWith prompts tag ↔ ∃ x ∈ (ofPrompts prompts).offsetsWith tag, x.toNat = n := by
  constructor
  · rintro ⟨i, prompt, hprompt, htag, rfl⟩
    have hstart : lineStart prompts i < UInt32.size :=
      Nat.lt_of_le_of_lt (lineStart_le_length_corpus prompts i) hsize
    have hoffset : (lineStart prompts i).toUInt32.toNat = lineStart prompts i :=
      UInt32.toNat_ofNat_of_lt' hstart
    have hline : ((lineStart prompts i).toUInt32, prompt) ∈ (ofPrompts prompts).lines :=
      (mem_lines_iff hsize).mpr ⟨i, hprompt, hoffset⟩
    exact ⟨_, mem_offsetsWith.mpr ⟨_, hline, htag, rfl⟩, hoffset⟩
  · rintro ⟨x, hx, rfl⟩
    obtain ⟨line, hline, htag, rfl⟩ := mem_offsetsWith.mp hx
    obtain ⟨i, hprompt, hstart⟩ := (mem_lines_iff hsize).mp hline
    exact ⟨i, line.2, hprompt, htag, hstart⟩

/-- The line about a set of the offsets of all prompts with a tag. -/
theorem exists_positionsLine (hsize : (ofPrompts prompts).corpus.length < UInt32.size)
    (hset : set.values = (ofPrompts prompts).offsetsWith tag) (hne : set.values ≠ []) :
    ∃ first last, IsLeast (lineStartsWith prompts tag) first ∧
      IsGreatest (lineStartsWith prompts tag) last ∧
      Environment.positionsLine set = "fetched ".toList ++ Text.ofNat set.size ++
        " offsets, ".toList ++ Text.ofNat first ++ "..=".toList ++ Text.ofNat last := by
  obtain ⟨x, hx, hleast, hlower⟩ := PositionSet.exists_least hne
  obtain ⟨y, hy, hgreatest, hupper⟩ := PositionSet.exists_greatest hne
  simp only [PositionSet.mem_def, hset] at hx hy hlower hupper
  refine ⟨x.toNat, y.toNat, ⟨(mem_lineStartsWith_iff hsize).mpr ⟨x, hx, rfl⟩, fun n hn => ?_⟩,
    ⟨(mem_lineStartsWith_iff hsize).mpr ⟨y, hy, rfl⟩, fun n hn => ?_⟩, ?_⟩
  · obtain ⟨z, hz, rfl⟩ := (mem_lineStartsWith_iff hsize).mp hn
    exact UInt32.le_iff_toNat_le.mp (hlower z hz)
  · obtain ⟨z, hz, rfl⟩ := (mem_lineStartsWith_iff hsize).mp hn
    exact UInt32.le_iff_toNat_le.mp (hupper z hz)
  · rw [Environment.positionsLine, hleast, hgreatest]

theorem lookup_index_of_none (hsize : (ofPrompts prompts).corpus.length < UInt32.size)
    (h : ∀ prompt ∈ prompts, tag ∉ prompt.trimmedParts) :
    (ofPrompts prompts).index.lookup tag = .error (.tagNotFound tag) := by
  rw [TagIndex.lookup]
  cases hfound : (ofPrompts prompts).index.get? tag with
  | none => rfl
  | some entry =>
      obtain ⟨hentry, rfl⟩ := (get?_index_eq_some_iff prompts).mp hfound
      obtain ⟨-, prompt, hprompt, htag⟩ :=
        ((invariant_ofPrompts prompts hsize).mem_tags entry.tag).mp (List.mem_map_of_mem hentry)
      exact absurd htag (h prompt hprompt)

/-- The entry of a tag that some prompts have counts these prompts. -/
theorem exists_lookup_index (hsize : (ofPrompts prompts).corpus.length < UInt32.size)
    (htag : tag ≠ []) (h : ∃ prompt ∈ prompts, tag ∈ prompt.trimmedParts) :
    ∃ entry ∈ (ofPrompts prompts).entries, entry.tag = tag ∧
      (ofPrompts prompts).index.lookup tag = .ok entry ∧
      entry.stop.toNat = entry.start.toNat + ((ofPrompts prompts).offsetsWith tag).length := by
  obtain ⟨entry, hentry, rfl⟩ := List.mem_map.mp
    (((invariant_ofPrompts prompts hsize).mem_tags tag).mpr ⟨htag, h⟩)
  obtain ⟨offsets, hgroup, before, rest, -, -, hstop⟩ :=
    exists_group_holds (indexable_of_size hsize) hentry
  refine ⟨entry, hentry, rfl, ?_, ?_⟩
  · rw [TagIndex.lookup, (get?_index_eq_some_iff prompts).mpr ⟨hentry, rfl⟩]
  · rw [hstop, eq_offsetsWith_of_mem hsize hgroup]

end CorpusLayout

namespace Environment

open CorpusLayout

theorem lookup_of_missing {index : TagIndex} {error : SearchError}
    (hload : TagIndex.load env.files settings.data.tagIndexPath = .ok index)
    (hmissing : index.lookup tag = .error error) (fetched : Bool) :
    env.lookup settings tag fetched = .failed (.ofSearch error) := by
  simp only [lookup, hload, hmissing]

theorem lookup_of_fetch {index : TagIndex}
    (hload : TagIndex.load env.files settings.data.tagIndexPath = .ok index)
    (hfound : index.lookup tag = .ok entry) (hfetch : env.fetch settings entry = .positions set) :
    env.lookup settings tag true = { printed := [entryLine entry, positionsLine set] } := by
  simp only [lookup, hload, hfound, hfetch, if_pos]

/-- The line about an entry with so many slots. -/
theorem entryLine_eq {count : Nat} (hstop : entry.stop.toNat = entry.start.toNat + count) :
    entryLine entry = entry.tag ++ ": slots ".toList ++ Text.ofNat entry.start.toNat ++
      "..".toList ++ Text.ofNat entry.stop.toNat ++ " (".toList ++ Text.ofNat count ++
        " prompts)".toList := by
  have hordered : entry.start ≤ entry.stop := by
    rw [UInt32.le_iff_toNat_le, hstop]
    exact Nat.le_add_right entry.start.toNat count
  have hsize : entry.size.toNat = count := by
    rw [IndexEntry.size, UInt32.toNat_sub_of_le _ _ hordered, hstop, Nat.add_sub_cancel_left]
  rw [entryLine, hsize]

/-- What is fetched for an entry of the index are the offsets of the prompts with its tag. -/
theorem exists_fetch (hsize : (ofPrompts prompts).corpus.length < UInt32.size)
    (hlocal : isWebAddress settings.source.positionsUrl = false)
    (hfind : env.files.find settings.source.positionsUrl =
      .ok (place, .file (ofPrompts prompts).positions))
    (hentry : entry ∈ (ofPrompts prompts).entries) :
    ∃ set, env.fetch settings entry = .positions set ∧
      set.values = (ofPrompts prompts).offsetsWith entry.tag := by
  obtain ⟨offsets, -, hholds⟩ := exists_group_holds (indexable_of_size hsize) hentry
  exact ⟨_, fetch_of_find hlocal hfind hholds.inside, (slots_eq_offsetsWith hsize hentry).2⟩

/-- **Looking a tag up tells the truth about the corpus.** Over the files that prompts are laid out
as, with settings whose paths lead to them, looking up a tag that no prompt has fails because the
tag is not found; and looking up a tag that some prompts have prints the slots of the tag, as many
as there are prompts that have it, and then that as many offsets were fetched, the least and the
greatest of which are where the first and the last line with the tag start. -/
theorem lookup_tells_prompts (env : Environment) (settings : Settings) (prompts : List Text)
    (directory : Text) (files : FileTree) (tag : Text)
    (hsize : (ofPrompts prompts).corpus.length < UInt32.size)
    (hfiles : env.files = (ofPrompts prompts).writeTo (.inDirectory directory) files)
    (hsettings : settings.PointAt env.files (.inDirectory directory)) (htag : tag ≠ []) :
    let having := prompts.filter fun prompt => tag ∈ prompt.trimmedParts
    (having = [] → env.lookup settings tag true = .failed (.ofSearch (.tagNotFound tag))) ∧
    (having ≠ [] → ∃ start stop first last,
      ⟨tag, start, stop⟩ ∈ (ofPrompts prompts).entries ∧
      stop.toNat = start.toNat + having.length ∧
      IsLeast (lineStartsWith prompts tag) first ∧
      IsGreatest (lineStartsWith prompts tag) last ∧
      env.lookup settings tag true =
        { printed :=
            [tag ++ ": slots ".toList ++ Text.ofNat start.toNat ++ "..".toList ++
                Text.ofNat stop.toNat ++ " (".toList ++ Text.ofNat having.length ++
                  " prompts)".toList,
              "fetched ".toList ++ Text.ofNat having.length ++ " offsets, ".toList ++
                Text.ofNat first ++ "..=".toList ++ Text.ofNat last] }) := by
  intro having
  obtain ⟨hlocal, ⟨positions, hpositions⟩, ⟨index, hindex⟩⟩ := hsettings
  rw [hfiles] at hpositions hindex
  obtain rfl := eq_of_find_positions hpositions
  obtain rfl := eq_of_find_index hindex
  have hload : TagIndex.load env.files settings.data.tagIndexPath =
      .ok (ofPrompts prompts).index := by
    rw [hfiles, TagIndex.load_of_find hindex]
    exact parse_indexText (indexable_of_size hsize)
  refine ⟨fun hnone => ?_, fun hsome => ?_⟩
  · have hmissing : (ofPrompts prompts).index.lookup tag = .error (.tagNotFound tag) :=
      lookup_index_of_none hsize (by simpa [having] using hnone)
    exact lookup_of_missing hload hmissing true
  · obtain ⟨entry, hentry, rfl, hfound, hstop⟩ := exists_lookup_index hsize htag (by
      simpa [having] using hsome)
    rw [← hfiles] at hpositions
    obtain ⟨set, hfetch, hset⟩ := exists_fetch hsize hlocal hpositions hentry
    have hcount : ((ofPrompts prompts).offsetsWith entry.tag).length = having.length :=
      length_offsetsWith prompts entry.tag
    have hsetSize : set.size = having.length := by rw [PositionSet.size, hset, hcount]
    have hne : set.values ≠ [] := by
      intro hnil
      rw [PositionSet.size, hnil] at hsetSize
      exact hsome (List.length_eq_zero_iff.mp hsetSize.symm)
    obtain ⟨first, last, hfirst, hlast, hline⟩ := exists_positionsLine hsize hset hne
    rw [hcount] at hstop
    refine ⟨entry.start, entry.stop, first, last, hentry, hstop, hfirst, hlast, ?_⟩
    rw [lookup_of_fetch hload hfound hfetch, entryLine_eq hstop, hline, hsetSize]

/-- A tag that a prompt repeats and that blanks surround, at paths with a dot and with two slashes. -/
theorem lookup_tells_prompts_with_repetitions :
    let prompts := ["a, b".toList, "b,, b".toList, " b ,é".toList]
    let settings : Settings :=
      { source := { positionsUrl := "d/./pos.dat".toList }
        data := { tagIndexPath := "d//tag_index.json".toList } }
    let env : Environment :=
      { files := (ofPrompts prompts).writeTo (.inDirectory ['d'])
          { nodes := [([Utf8.encode ['d']], .directory)] }
        web := fun _ _ => .closed
        seed := 0 }
    (ofPrompts prompts).corpus.length < UInt32.size ∧
      settings.PointAt env.files (.inDirectory ['d']) ∧
      env.lookup settings ['b'] true =
        { printed := ["b: slots 1..4 (3 prompts)".toList,
            "fetched 3 offsets, 0..=11".toList] } ∧
      env.lookup settings ['c'] true = .failed (.ofSearch (.tagNotFound ['c'])) := by
  intro prompts settings env
  have hsize : (ofPrompts prompts).corpus.length < UInt32.size := by decide
  have hsettings : settings.PointAt env.files (.inDirectory ['d']) :=
    ⟨by decide, ⟨.file (ofPrompts prompts).positions, by decide⟩,
      ⟨.file (Utf8.encode (ofPrompts prompts).indexText), by decide⟩⟩
  obtain ⟨-, hfound⟩ :=
    lookup_tells_prompts env settings prompts ['d'] _ ['b'] hsize rfl hsettings (by decide)
  obtain ⟨hmissing, -⟩ :=
    lookup_tells_prompts env settings prompts ['d'] _ ['c'] hsize rfl hsettings (by decide)
  refine ⟨hsize, hsettings, ?_, hmissing (by decide)⟩
  obtain ⟨start, stop, first, last, hentry, -, hfirst, hlast, hlookup⟩ := hfound (by decide)
  have hstarts : ∀ n, n ∈ lineStartsWith prompts ['b'] ↔ n = 0 ∨ n = 5 ∨ n = 11 := by
    intro n
    constructor
    · rintro ⟨i, prompt, hprompt, -, rfl⟩
      have hall : ∀ i < 3, lineStart prompts i = 0 ∨ lineStart prompts i = 5 ∨
          lineStart prompts i = 11 := by decide
      exact hall i (List.getElem?_eq_some_iff.mp hprompt).1
    · rintro (rfl | rfl | rfl)
      · exact ⟨0, _, rfl, by decide, rfl⟩
      · exact ⟨1, _, rfl, by decide, rfl⟩
      · exact ⟨2, _, rfl, by decide, rfl⟩
  obtain ⟨rfl, rfl⟩ : start = 1 ∧ stop = 4 := by
    have hentries : (ofPrompts prompts).entries =
        [⟨['a'], 0, 1⟩, ⟨['b'], 1, 4⟩, ⟨['é'], 4, 5⟩] := by decide
    rw [hentries] at hentry
    simp only [List.mem_cons, IndexEntry.mk.injEq, List.not_mem_nil, or_false] at hentry
    rcases hentry with ⟨htag, -⟩ | ⟨-, hslots⟩ | ⟨htag, -⟩
    · exact absurd htag (by decide)
    · exact hslots
    · exact absurd htag (by decide)
  obtain rfl : first = 0 := hfirst.unique ⟨(hstarts 0).mpr (by decide), fun n _ => Nat.zero_le n⟩
  obtain rfl : last = 11 := by
    refine hlast.unique ⟨(hstarts 11).mpr (by decide), fun n hn => ?_⟩
    rcases (hstarts n).mp hn with rfl | rfl | rfl <;> decide
  rw [hlookup]
  decide

end Environment
end TagPrompt
