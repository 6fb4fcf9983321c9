import TagPrompt.Proofs.Source.Ranges
import TagPrompt.Proofs.Text.Digits
import TagPrompt.Proofs.Text.Split
import TagPrompt.Search.CorpusLine
import TagPrompt.Search.Positions
import TagPrompt.Source.Http
import TagPrompt.Source.Location
import TagPrompt.Source.Memory

/-! Transports of one content. A file, a memory, a server that sends all it has and a server that
sends what it is asked for give the same bytes for a range, so searches and prompts do not depend on
where the data lies. -/

namespace TagPrompt

/-! ### What a source has to do -/

/-- A server that answers every request with the whole content. -/
structure HttpServer.IgnoresRanges (server : HttpServer) (content : Bytes) : Prop where
  /-- No response announces more. -/
  announceable : content.length ≤ HttpSource.lengthLimit
  whole : ∀ header, server header = .response 200 content.length content

/-- A server that answers a request for the bytes from `first` up to and with `last` with those that
the content has, as soon as it has the first of them. -/
structure HttpServer.HonoursRanges (server : HttpServer) (content : Bytes) : Prop where
  announceable : content.length ≤ HttpSource.lengthLimit
  part : ∀ first last, first ≤ last → first < content.length →
    let body := ByteRange.positioned ⟨first, last + 1⟩ content
    server ("bytes=".toList ++ Text.ofNat first ++ '-' :: Text.ofNat last) =
      .response 206 body.length body

/-- The sources that have a content for the reads of a range. From a server that honours ranges a
range is only read if it has bytes in the content or none at all. -/
inductive Carries (content : Bytes) (range : ByteRange) : ByteSource → Prop
  | file {files : FileTree} {path : Text} {place : FilePath}
      (hfind : files.find path = .ok (place, .file content)) :
      Carries content range (LocalFile.source files path)
  | memory {m : MemorySource} (hcontent : m.content = content) (hsound : m.failing = false) :
      Carries content range m.source
  | wholeServer {h : HttpSource} (hserver : h.server.IgnoresRanges content) :
      Carries content range h.source
  | rangeServer {h : HttpSource} (hserver : h.server.HonoursRanges content)
      (hrange : range.start < min range.stop content.length ∨ range.start = range.stop) :
      Carries content range h.source

/-- A read ends in time, without a fault of the operating system and without a crash, as a position
that no file has and a buffer that cannot be made would be. -/
structure ByteSource.Finishes (source : ByteSource) (limit : Millis) (range : ByteRange) :
    Prop where
  inTime : (source.read range).took ≤ limit
  noFault : ∀ fault, (source.read range).reading ≠ .failed (.io fault)
  noCrash : (source.read range).reading ≠ .crashed

variable {content : Bytes} {range : ByteRange} {s s' : ByteSource} {limit limit' : Millis}

/-! ### Reads of each source -/

theorem ByteSource.Finishes.of_bytes {bytes : Bytes} {took : Millis}
    (hread : s.read range = ⟨.bytes bytes, took⟩) (htook : took ≤ limit) :
    s.Finishes limit range := by
  constructor
  · rw [hread]
    exact htook
  · intro fault
    rw [hread]
    nofun
  · rw [hread]
    nofun

namespace LocalFile

variable {files : FileTree} {path : Text} {place : FilePath}

theorem read_of_isEmpty (h : range.isEmpty = true) :
    (source files path).read range = ⟨.bytes (range.positioned content), 0⟩ := by
  simp only [source, reading, if_pos h, ByteRange.positioned_of_isEmpty h]

theorem read_file (hfind : files.find path = .ok (place, .file content))
    (hposition : range.start < positionLimit) (hbuffer : range.length ≤ bufferLimit) :
    (source files path).read range = ⟨.bytes (range.positioned content), 0⟩ := by
  cases hempty : range.isEmpty with
  | true => exact read_of_isEmpty hempty
  | false =>
      simp only [source, reading, hempty, hfind, if_neg Bool.false_ne_true,
        if_neg (Nat.not_le.mpr hposition), if_neg (Nat.not_lt.mpr hbuffer),
        ByteRange.cut_eq_positioned]

/-- A read of a file that finishes has stayed below what a file and a buffer can hold. -/
theorem read_of_finishes (hfind : files.find path = .ok (place, .file content))
    (hfinishes : (source files path).Finishes limit range) :
    (source files path).read range = ⟨.bytes (range.positioned content), 0⟩ := by
  by_cases hempty : range.isEmpty = true
  · exact read_of_isEmpty hempty
  by_cases hposition : range.start < positionLimit
  · by_cases hbuffer : range.length ≤ bufferLimit
    · exact read_file hfind hposition hbuffer
    · exfalso
      apply hfinishes.noCrash
      simp only [source, reading, if_neg hempty, hfind, if_neg (Nat.not_le.mpr hposition),
        if_pos (Nat.not_le.mp hbuffer)]
  · exfalso
    apply hfinishes.noFault .invalidPosition
    simp only [source, reading, if_neg hempty, hfind, if_pos (Nat.not_lt.mp hposition)]

end LocalFile

theorem MemorySource.reading_of_finishes {m : MemorySource} (hsound : m.failing = false)
    (hfinishes : m.source.Finishes limit range) :
    m.reading range = .bytes (range.positioned m.content) := by
  have hcrashing : m.crashing = false := by
    by_contra hcrashing
    rw [Bool.not_eq_false] at hcrashing
    apply hfinishes.noCrash
    show m.reading range = .crashed
    rw [reading, if_pos hcrashing]
  have hreading : m.reading range = (range.slice? m.content).elim .crashed .bytes := by
    rw [reading, hcrashing, hsound, if_neg Bool.false_ne_true, if_neg Bool.false_ne_true]
    cases range.slice? m.content <;> rfl
  rw [hreading, ByteRange.slice?]
  split_ifs with hslice
  · rw [Option.elim_some, ByteRange.clamped_eq_positioned]
  · exfalso
    apply hfinishes.noCrash
    show m.reading range = .crashed
    rw [hreading, ByteRange.slice?, if_neg hslice, Option.elim_none]

namespace HttpSource

variable {h : HttpSource}

theorem read_of_isEmpty (hempty : range.isEmpty = true) :
    h.source.read range = ⟨.bytes (range.positioned content), 0⟩ := by
  show h.attempt range = _
  rw [attempt, request?, if_pos hempty, ByteRange.positioned_of_isEmpty hempty]

theorem read_of_response {status length : Nat} {body : Bytes} (hempty : ¬range.isEmpty = true)
    (hreply : h.server (rangeHeader range) = .response status length body) :
    h.source.read range = ⟨h.readingOf range (.response status length body), 0⟩ := by
  show h.attempt range = _
  rw [attempt, request?, if_neg hempty]
  dsimp only
  rw [hreply]

theorem readingOf_whole (h : HttpSource) (range : ByteRange)
    (hlength : content.length ≤ lengthLimit) :
    h.readingOf range (.response 200 content.length content) =
      .bytes (range.positioned content) := by
  have hannounced : ¬lengthLimit < content.length := Nat.not_lt.mpr hlength
  simp [readingOf, isStatus, isInterim, isBodiless, hannounced, ByteRange.clamped_eq_positioned]

theorem readingOf_part (h : HttpSource) (range : ByteRange) {body : Bytes}
    (hlength : body.length ≤ lengthLimit) :
    h.readingOf range (.response 206 body.length body) = .bytes body := by
  have hannounced : ¬lengthLimit < body.length := Nat.not_lt.mpr hlength
  simp [readingOf, isStatus, isInterim, isBodiless, hannounced]

theorem read_whole (hserver : h.server.IgnoresRanges content) (range : ByteRange) :
    h.source.read range = ⟨.bytes (range.positioned content), 0⟩ := by
  by_cases hempty : range.isEmpty = true
  · exact read_of_isEmpty hempty
  · rw [read_of_response hempty (hserver.whole _), readingOf_whole h range hserver.announceable]

/-- The last position that a request names is inclusive, so it is one less than the end. -/
theorem read_part (hserver : h.server.HonoursRanges content)
    (hrange : range.start < min range.stop content.length ∨ range.start = range.stop) :
    h.source.read range = ⟨.bytes (range.positioned content), 0⟩ := by
  rcases hrange with hrange | hrange
  · obtain ⟨hstop, hlength⟩ := Nat.lt_min.mp hrange
    have hempty : ¬range.isEmpty = true := by
      rw [ByteRange.isEmpty, decide_eq_true_eq]
      exact Nat.not_le.mpr hstop
    have hasked : (⟨range.start, range.stop - 1 + 1⟩ : ByteRange) = range := by
      rw [Nat.sub_add_cancel (by omega)]
    have hreply := hserver.part range.start (range.stop - 1) (by omega) hlength
    rw [hasked] at hreply
    have hannounced : (range.positioned content).length ≤ lengthLimit :=
      Nat.le_trans (ByteRange.length_positioned_le range content) hserver.announceable
    rw [read_of_response hempty hreply, readingOf_part h range hannounced]
  · apply read_of_isEmpty
    exact decide_eq_true (Nat.le_of_eq hrange.symm)

end HttpSource

/-- Reads that finish give the bytes of the content that lie in the range. -/
theorem Carries.reading_eq (hcarries : Carries content range s)
    (hfinishes : s.Finishes limit range) :
    (s.readWithin limit range).reading = .bytes (range.positioned content) := by
  rw [ByteSource.readWithin, if_neg (Nat.not_lt.mpr hfinishes.inTime)]
  cases hcarries with
  | file hfind => rw [LocalFile.read_of_finishes hfind hfinishes]
  | memory hcontent hsound =>
      rw [← hcontent, ← MemorySource.reading_of_finishes hsound hfinishes, MemorySource.source]
  | wholeServer hserver => rw [HttpSource.read_whole hserver]
  | rangeServer hserver hrange => rw [HttpSource.read_part hserver hrange]

/-! ### A server that reads the header -/

/-- A server that takes the Range header apart and answers with the bytes that it asks for. -/
def rangeServer (content : Bytes) : HttpServer := fun header =>
  match (Text.after? "bytes=".toList header).map (Text.split '-') with
  | some [first, last] =>
      let asked : ByteRange := ⟨Text.decimal first, Text.decimal last + 1⟩
      if asked.start < min asked.stop content.length then
        let body := asked.positioned content
        .response 206 body.length body
      else .response 416 0 []
  | _ => .response 200 content.length content

theorem rangeServer_honoursRanges (h : content.length ≤ HttpSource.lengthLimit) :
    (rangeServer content).HonoursRanges content where
  announceable := h
  part first last hle hlength := by
    have hdash : ∀ n, '-' ∉ Text.ofNat n := Text.not_mem_ofNat (by decide)
    have hheader : (Text.after? "bytes=".toList
        ("bytes=".toList ++ Text.ofNat first ++ '-' :: Text.ofNat last)).map (Text.split '-') =
          some [Text.ofNat first, Text.ofNat last] := by
      rw [List.append_assoc, Text.after?_append, Option.map_some,
        Text.split_append_separator (hdash first), Text.split_of_not_mem (hdash last)]
    have hasked : first < min (last + 1) content.length := by omega
    simp only [rangeServer, hheader, Text.decimal_ofNat, if_pos hasked]

/-! ### Searches and prompts over a source -/

/-- The error that a read at another location gives. -/
def FetchError.relocated (location : Text) : FetchError → FetchError
  | .status code _ => .status code location
  | .malformed (.noLineEnd window offset _) => .malformed (.noLineEnd window offset location)
  | error => error

/-- What is read from another location. -/
def PromptRead.relocated (location : Text) : PromptRead → PromptRead
  | .failed error => .failed (error.relocated location)
  | read => read

theorem fetchPositions_of_reading {entry : IndexEntry} {bytes : Bytes}
    (hreading : (s.readWithin limit entry.byteRange).reading = .bytes bytes)
    (hempty : entry.isEmpty = true → bytes = []) :
    (fetchPositions s limit entry).1 = fetchedOfBytes entry bytes := by
  rw [fetchPositions, readFor?]
  cases hentry : entry.isEmpty with
  | true =>
      have hcount : entry.byteCount.toNat = 0 := by
        rw [IndexEntry.isEmpty, beq_iff_eq] at hentry
        rw [IndexEntry.byteCount, IndexEntry.byteRange, hentry, UInt64.sub_self]
        rfl
      rw [hempty hentry, fetchedOfBytes, hcount]
      rfl
  | false =>
      rw [if_neg Bool.false_ne_true]
      dsimp only
      rw [hreading, fetchedOfReading]

namespace Corpus

variable {corpus corpus' : Corpus} {offset : Offset} {bytes : Bytes}

theorem promptAt_of_reading (corpus : Corpus)
    (hreading : (corpus.source.readWithin corpus.limit (corpus.rangeAt offset)).reading =
      .bytes bytes) :
    corpus.promptAt offset = corpus.promptOfBytes offset bytes := by
  rw [promptAt, hreading]

theorem promptOfBytes_relocated (hwindow : corpus'.window = corpus.window) :
    corpus'.promptOfBytes offset bytes =
      (corpus.promptOfBytes offset bytes).relocated corpus'.source.location := by
  rw [promptOfBytes, promptOfBytes, hwindow]
  cases firstLine? bytes with
  | none => rfl
  | some line =>
      dsimp only
      cases Utf8.decode line <;> rfl

end Corpus

/-- **Transports agree.** Reads of a range that finish give the bytes of the content whose positions
lie in the range, over every source that carries the content. So over any two of them fetching the
positions of a tag ends alike, and reading the prompt at an offset gives the same prompt, or the
same error but for the location in it. -/
theorem transports_agree (hcarries : Carries content range s) (hfinishes : s.Finishes limit range)
    (hcarries' : Carries content range s') (hfinishes' : s'.Finishes limit' range) :
    (s.readWithin limit range).reading = .bytes (range.positioned content) ∧
      (s'.readWithin limit' range).reading = .bytes (range.positioned content) ∧
      (∀ entry : IndexEntry, entry.byteRange = range →
        (fetchPositions s' limit' entry).1 = (fetchPositions s limit entry).1) ∧
      ∀ (window : UInt64) (offset : Offset),
        let corpus : Corpus := ⟨s, window, limit⟩
        let corpus' : Corpus := ⟨s', window, limit'⟩
        corpus.rangeAt offset = range →
          corpus'.promptAt offset = (corpus.promptAt offset).relocated s'.location := by
  have hreading := hcarries.reading_eq hfinishes
  have hreading' := hcarries'.reading_eq hfinishes'
  refine ⟨hreading, hreading', ?_, ?_⟩
  · rintro entry rfl
    have hempty : entry.isEmpty = true → entry.byteRange.positioned content = [] := by
      intro hentry
      apply ByteRange.positioned_of_isEmpty
      rw [IndexEntry.isEmpty, beq_iff_eq] at hentry
      rw [IndexEntry.byteRange, hentry, ByteRange.isEmpty, decide_eq_true_eq]
    rw [fetchPositions_of_reading hreading hempty, fetchPositions_of_reading hreading' hempty]
  · rintro window offset corpus corpus' rfl
    rw [corpus.promptAt_of_reading hreading, corpus'.promptAt_of_reading hreading']
    have hwindow : corpus'.window = corpus.window := rfl
    exact Corpus.promptOfBytes_relocated hwindow

/-- A file and a server of the same bytes, read beyond their end. -/
theorem transports_agree_file_and_server :
    let content : Bytes := [0x2C, 0x0A, 0x61, 0x2C, 0x0A]
    let file := LocalFile.source (FileTree.put {} ['t'] content) ['t']
    let server := (HttpSource.mk ['u'] 20 (rangeServer content)).source
    (file.readWithin 5 ⟨2, 9⟩).reading = .bytes [0x61, 0x2C, 0x0A] ∧
      (server.readWithin 20 ⟨2, 9⟩).reading = .bytes [0x61, 0x2C, 0x0A] ∧
      (Corpus.mk server 7 20).promptAt 2 = ((Corpus.mk file 7 5).promptAt 2).relocated ['u'] := by
  intro content file server
  have hfind : (FileTree.put {} ['t'] content).find ['t'] = .ok ([[0x74]], .file content) := by
    decide
  have hhonours : (rangeServer content).HonoursRanges content :=
    rangeServer_honoursRanges (by decide)
  have hcarries : Carries content ⟨2, 9⟩ server := .rangeServer hhonours (by decide)
  have hfile : file.Finishes 5 ⟨2, 9⟩ :=
    .of_bytes (LocalFile.read_file hfind (by decide) (by decide)) (by decide)
  have hserver : server.Finishes 20 ⟨2, 9⟩ :=
    .of_bytes (HttpSource.read_part hhonours (by decide)) (by decide)
  obtain ⟨hleft, hright, -, hprompt⟩ :=
    transports_agree (.file hfind) hfile hcarries hserver
  exact ⟨hleft, hright, hprompt 7 2 rfl⟩

end TagPrompt
