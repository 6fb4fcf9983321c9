import Mathlib.Tactic.Ring
import TagPrompt.Prompt.Writing
import TagPrompt.Proofs.Prompt.Plain

/-! Writing and reading are inverse. Between the texts of two neighbours the writer puts the
brackets that close groups, a separator, and the brackets that open groups, whatever the two levels
are. The reader takes the level of a tag at the last character of its text, which stands in front of
all brackets that close, so it reads every level back, also where groups are left open at the end.
-/

namespace TagPrompt.Prompt

/-! ### What stands between neighbours -/

def separator : Text := [',', ' ']

/-- The brackets that close groups on the way from one level to another: lowering groups up to level
zero, or raising groups down to it. -/
def closing (level target : Int) : Text :=
  List.replicate (min target 0 - level).toNat ']' ++ List.replicate (level - max target 0).toNat '}'

/-- The brackets that open groups on the way from one level to another. -/
def opening (level target : Int) : Text :=
  List.replicate (target - max level 0).toNat '{' ++ List.replicate (min level 0 - target).toNat '['

/-- What is written behind the text of a tag at a level. -/
def continuation (level : Int) : Prompt → Text
  | [] => []
  | tag :: rest =>
      closing level tag.level.toInt ++ separator ++ opening level tag.level.toInt ++ tag.text ++
        continuation tag.level.toInt rest

theorem dropSeparator_nil : dropSeparator [] = [] := rfl

theorem dropSeparator_writeSeparator (written : Text) :
    dropSeparator (writeSeparator written) = written := rfl

theorem repeat_openGroup_nil (bracket : Char) (count : Nat) :
    Nat.repeat (openGroup bracket) count [] = List.replicate count bracket := by
  induction count with
  | zero => rfl
  | succ count ih =>
      rw [Nat.repeat, ih, List.replicate_succ]
      cases count with
      | zero => rfl
      | succ count => rw [List.replicate_succ, openGroup, if_pos rfl]

/-- Only the first of several opening brackets is separated from what stands in front. -/
theorem repeat_openGroup {bracket c : Char} (hc : c ≠ bracket) (count : Nat) (written : Text) :
    Nat.repeat (openGroup bracket) (count + 1) (c :: written) =
      List.replicate (count + 1) bracket ++ writeSeparator (c :: written) := by
  induction count with
  | zero =>
      rw [Nat.repeat, Nat.repeat, openGroup, if_neg hc]
      rfl
  | succ count ih =>
      rw [Nat.repeat, ih, List.replicate_succ, List.cons_append, openGroup, if_pos rfl]
      rfl

/-- Both ways to change the level: a separator stands between the brackets that close and those that
open, wherever something is written already and some bracket is needed. -/
theorem separateAfter_repeat {close bracket c : Char} (hclose : close ≠ bracket) (hc : c ≠ bracket)
    {closed opened : Nat} (hsome : 0 < closed + opened) (written : Text) :
    separateAfter close (Nat.repeat (openGroup bracket) opened
        (List.replicate closed close ++ c :: written)) =
      List.replicate opened bracket ++
        writeSeparator (List.replicate closed close ++ c :: written) := by
  cases opened with
  | zero =>
      cases closed with
      | zero => omega
      | succ closed =>
          rw [List.replicate_succ, List.cons_append, Nat.repeat, separateAfter,
            if_pos (by rw [List.head?_cons]), List.replicate_zero, List.nil_append]
  | succ opened =>
      have hfirst : List.replicate (opened + 1) bracket ++
          writeSeparator (List.replicate closed close ++ c :: written) =
          Nat.repeat (openGroup bracket) (opened + 1)
            (List.replicate closed close ++ c :: written) := by
        cases closed with
        | zero => exact (repeat_openGroup hc opened written).symm
        | succ closed =>
            rw [List.replicate_succ, List.cons_append]
            exact (repeat_openGroup hclose opened _).symm
      rw [← hfirst, separateAfter, List.replicate_succ, List.cons_append, List.head?_cons,
        if_neg (by simpa using hclose.symm)]

/-- At the start of the text nothing separates the brackets. -/
theorem separateAfter_replicate {close bracket : Char} (hclose : close ≠ bracket) (opened : Nat) :
    separateAfter close (List.replicate opened bracket) = List.replicate opened bracket := by
  rw [separateAfter, if_neg]
  intro hhead
  have hmem := List.mem_of_head? hhead
  exact hclose (List.eq_of_mem_replicate hmem)

/-- What is written on the way from a tag to the next one. -/
theorem moveTo_writeSeparator {c : Char} (hc : c ∉ Text.marks) (level target : Int)
    (written : Text) :
    moveTo level target (writeSeparator (c :: written)) =
      (closing level target ++ separator ++ opening level target).reverse ++ c :: written := by
  simp only [closing, opening, separator, List.reverse_append, List.reverse_replicate]
  -- on the way up the two kinds of brackets that lower have no occurrence, on the way down the others
  rcases Int.lt_trichotomy level target with hrise | rfl | hfall
  · have hother : (level - max target 0).toNat = 0 ∧ (min level 0 - target).toNat = 0 := by omega
    have hsome : 0 < (min target 0 - level).toNat + (target - max level 0).toNat := by omega
    have hopen : c ≠ '{' := fun h => hc (by simp [Text.marks, h])
    rw [moveTo, if_neg (Int.ne_of_gt hrise), if_pos hrise, dropSeparator_writeSeparator, rise,
      separateAfter_repeat (by decide) hopen hsome, hother.1, hother.2, writeSeparator]
    simp
  · have hnone : (min level 0 - level).toNat = 0 ∧ (level - max level 0).toNat = 0 := by omega
    rw [moveTo, if_pos rfl, hnone.1, hnone.2]
    rfl
  · have hother : (min target 0 - level).toNat = 0 ∧ (target - max level 0).toNat = 0 := by omega
    have hsome : 0 < (level - max target 0).toNat + (min level 0 - target).toNat := by omega
    have hopen : c ≠ '[' := fun h => hc (by simp [Text.marks, h])
    rw [moveTo, if_neg (Int.ne_of_lt hfall), if_neg (Int.not_lt.mpr (Int.le_of_lt hfall)),
      dropSeparator_writeSeparator, fall, separateAfter_repeat (by decide) hopen hsome, hother.1,
      hother.2, writeSeparator]
    simp

theorem moveTo_nil (target : Int) : moveTo 0 target [] = (opening 0 target).reverse := by
  simp only [opening, List.reverse_append, List.reverse_replicate]
  rcases Int.lt_trichotomy 0 target with hrise | rfl | hfall
  · have hother : (min target 0 - 0).toNat = 0 ∧ (min 0 0 - target).toNat = 0 := by omega
    rw [moveTo, if_neg (Int.ne_of_gt hrise), if_pos hrise, dropSeparator_nil, rise, hother.1,
      hother.2, List.replicate_zero, List.nil_append, repeat_openGroup_nil,
      separateAfter_replicate (by decide), List.replicate_zero, List.nil_append]
  · rfl
  · have hother : (0 - max target 0).toNat = 0 ∧ (target - max 0 0).toNat = 0 := by omega
    rw [moveTo, if_neg (Int.ne_of_lt hfall), if_neg (Int.not_lt.mpr (Int.le_of_lt hfall)),
      dropSeparator_nil, fall, hother.1, hother.2, List.replicate_zero, List.nil_append,
      repeat_openGroup_nil, separateAfter_replicate (by decide), List.replicate_zero,
      List.append_nil]

theorem reverse_eq_cons_of_isPlain {t : Text} (h : t.IsPlain) :
    ∃ c written, t.reverse = c :: written ∧ c ∉ Text.marks := by
  obtain ⟨c, written, hreverse⟩ :=
    List.exists_cons_of_ne_nil (List.reverse_ne_nil_iff.mpr h.nonempty)
  refine ⟨c, written, hreverse, h.unmarked c (List.mem_reverse.mp ?_)⟩
  rw [hreverse]
  exact List.mem_cons_self

/-- Behind its first tag a prompt is written as its continuation. -/
theorem writeFrom_cons {tag : Tag} {rest : Prompt} (h : IsPlain (tag :: rest)) (level : Int)
    (written : Text) :
    writeFrom level written (tag :: rest) =
      (continuation tag.level.toInt rest).reverse ++
        (tag.text.reverse ++ moveTo level tag.level.toInt written) := by
  induction rest generalizing tag level written with
  | nil => rfl
  | cons next rest ih =>
      obtain ⟨htag, hrest⟩ := isPlain_cons.mp h
      -- the separator behind `tag` is taken back and put elsewhere, but no further than to `c`
      obtain ⟨c, before, hreverse, hc⟩ := reverse_eq_cons_of_isPlain htag
      rw [writeFrom, ih hrest, hreverse, List.cons_append, moveTo_writeSeparator hc, continuation]
      simp only [List.reverse_append, List.append_assoc]

theorem render_cons {tag : Tag} {rest : Prompt} (h : IsPlain (tag :: rest)) :
    render (tag :: rest) =
      opening 0 tag.level.toInt ++ tag.text ++ continuation tag.level.toInt rest := by
  rw [render, writeFrom_cons h, moveTo_nil]
  simp only [List.reverse_append, List.reverse_reverse]

/-! ### Reading it back -/

variable {held : Text} {heldLevel : Int32} {rest : Text}

theorem segments_replicate {c : Char} {change : Int} (h : levelChange? c = some change)
    (count : Nat) (level : Int) :
    segments (.ofInt level) held heldLevel (List.replicate count c ++ rest) =
      segments (.ofInt (level + count * change)) held heldLevel rest := by
  induction count generalizing level with
  | zero => simp
  | succ count ih =>
      rw [List.replicate_succ, List.cons_append, segments_bracket _ held heldLevel h,
        ← Int32.ofInt_add, ih]
      congr 2
      push_cast
      ring

/-- The level nearest to zero on the way from one level to another, where the separator stands. -/
def waypoint (level target : Int) : Int := max (min level target) (min (max level target) 0)

theorem waypoint_zero (target : Int) : waypoint 0 target = 0 := by
  unfold waypoint
  omega

theorem segments_closing (level target : Int) :
    segments (.ofInt level) held heldLevel (closing level target ++ rest) =
      segments (.ofInt (waypoint level target)) held heldLevel rest := by
  rw [closing, List.append_assoc, segments_replicate (show levelChange? ']' = some 1 from rfl),
    segments_replicate (show levelChange? '}' = some (-1) from rfl)]
  congr 2
  unfold waypoint
  omega

theorem segments_opening (level target : Int) :
    segments (.ofInt (waypoint level target)) held heldLevel (opening level target ++ rest) =
      segments (.ofInt target) held heldLevel rest := by
  rw [opening, List.append_assoc, segments_replicate (show levelChange? '{' = some 1 from rfl),
    segments_replicate (show levelChange? '[' = some (-1) from rfl)]
  congr 2
  unfold waypoint
  omega

/-- A text without marks is held as a whole, and its last character sets the level. -/
theorem segments_text {t : Text} (ht : t ≠ []) (hmarks : ∀ c ∈ t, c ∉ Text.marks)
    (level : Int32) :
    segments level held heldLevel (t ++ rest) = segments level (t.reverse ++ held) level rest := by
  induction t generalizing held heldLevel with
  | nil => exact absurd rfl ht
  | cons c t ih =>
      rw [List.cons_append, segments_unmarked level held heldLevel (hmarks c List.mem_cons_self)]
      cases t with
      | nil => rfl
      | cons d t =>
          rw [ih (List.cons_ne_nil d t) (fun e he => hmarks e (List.mem_cons_of_mem c he))]
          simp

/-- What stands between neighbours ends the segment of the first and begins that of the second. -/
theorem segments_between (level : Int32) {tag : Tag} (htag : tag.text.IsPlain) :
    segments level held heldLevel
        (closing level.toInt tag.level.toInt ++ separator ++ opening level.toInt tag.level.toInt ++
          tag.text ++ rest) =
      ⟨held.reverse, heldLevel⟩ ::
        segments tag.level (tag.text.reverse ++ [' ']) tag.level rest := by
  have hblank : ' ' ∉ Text.marks := by decide
  have hlevel : Int32.ofInt level.toInt = level := Int32.ofInt_toInt level
  simp only [separator, List.append_assoc, List.cons_append, List.nil_append]
  nth_rewrite 1 [← hlevel]
  rw [segments_closing, segments_comma, segments_unmarked _ _ _ hblank, segments_opening,
    Int32.ofInt_toInt, segments_text htag.nonempty htag.unmarked]

theorem segments_continuation {rest : Prompt} (h : IsPlain rest) (level : Int32) (held : Text) :
    segments level held level (continuation level.toInt rest) =
      ⟨held.reverse, level⟩ :: rest.map fun tag => ⟨' ' :: tag.text, tag.level⟩ := by
  induction rest generalizing level held with
  | nil => rfl
  | cons tag rest ih =>
      obtain ⟨htag, hrest⟩ := isPlain_cons.mp h
      rw [continuation, segments_between level htag, ih hrest, List.map_cons,
        List.reverse_append, List.reverse_reverse]
      rfl

/-- The segments of a written prompt are its tags, each but the first behind a blank. -/
theorem segments_render {tag : Tag} {rest : Prompt} (h : IsPlain (tag :: rest)) :
    segments 0 [] 0 (render (tag :: rest)) =
      tag :: rest.map fun tag => ⟨' ' :: tag.text, tag.level⟩ := by
  obtain ⟨htag, hrest⟩ := isPlain_cons.mp h
  have hzero : Int32.ofInt (waypoint 0 tag.level.toInt) = 0 := by
    rw [waypoint_zero]
    rfl
  rw [render_cons h, List.append_assoc, ← hzero, segments_opening, Int32.ofInt_toInt,
    segments_text htag.nonempty htag.unmarked, segments_continuation hrest, List.append_nil,
    List.reverse_reverse]

theorem tagOfSegment?_of_trim {segment : Tag} {t : Text} (ht : t.IsPlain)
    (htrim : Text.trim segment.text = t) : tagOfSegment? segment = some ⟨t, segment.level⟩ := by
  refine tagOfSegment?_eq_some_iff.mpr ⟨?_, ?_⟩
  · rw [htrim]
    exact ht.nonempty
  · rw [htrim]

theorem filterMap_tagOfSegment? {p : Prompt} (h : p.IsPlain) :
    (p.map fun tag => (⟨' ' :: tag.text, tag.level⟩ : Tag)).filterMap tagOfSegment? = p := by
  induction p with
  | nil => rfl
  | cons tag rest ih =>
      obtain ⟨htag, hrest⟩ := isPlain_cons.mp h
      have htrim : Text.trim (' ' :: tag.text) = tag.text := by
        rw [Text.trim_cons (by decide), htag.trimmed]
      have hread : tagOfSegment? ⟨' ' :: tag.text, tag.level⟩ = some tag :=
        tagOfSegment?_of_trim htag htrim
      rw [List.map_cons, List.filterMap_cons_some hread, ih hrest]

theorem parse_render {p : Prompt} (h : p.IsPlain) : parse (render p) .kept = p := by
  cases p with
  | nil => rfl
  | cons tag rest =>
      obtain ⟨htag, hrest⟩ := isPlain_cons.mp h
      unfold parse
      rw [segments_render h, List.filterMap_cons_some (tagOfSegment?_of_trim htag htag.trimmed),
        filterMap_tagOfSegment? hrest]

/-- **Round trip.** Every plain prompt is read back from its text, whatever the levels are and
wherever they end. Reading gives plain prompts only, so what is read from any text, in each way to
treat the last segment, is read back from the text written for it. -/
theorem parse_render_parse :
    (∀ p : Prompt, p.IsPlain → parse (render p) .kept = p) ∧
      (∀ text last, (parse text last).IsPlain) ∧
      ∀ text last, parse (render (parse text last)) .kept = parse text last :=
  ⟨fun _ h => parse_render h, isPlain_parse,
    fun text last => parse_render (isPlain_parse text last)⟩

/-- Levels on both sides of zero, and groups that stay open at the end. -/
theorem parse_render_parse_open_groups :
    IsPlain [⟨['a'], 2⟩, ⟨['b', ' ', 'c'], -1⟩, ⟨['d'], -3⟩] ∧
      parse (render [⟨['a'], 2⟩, ⟨['b', ' ', 'c'], -1⟩, ⟨['d'], -3⟩]) .kept =
        [⟨['a'], 2⟩, ⟨['b', ' ', 'c'], -1⟩, ⟨['d'], -3⟩] :=
  ⟨by decide, parse_render_parse.1 _ (by decide)⟩

end TagPrompt.Prompt
