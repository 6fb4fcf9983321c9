import TagPrompt.Proofs.Prompt.RoundTrip

/-! The nesting of written brackets. A reader who keeps the brackets that are open on a stack meets
no bracket in a written prompt that closes another one than the last opened, and never has brackets
of both kinds open. Each step of the writer moves between stacks of one kind, one bracket at a time,
so at the text of a tag the stack has the level of the tag, and at the end that of the last tag. -/

namespace TagPrompt.Prompt

variable {level between target : Int} {text front rest : Text}

/-- What is open after one more character; nothing if it closes a bracket that is not on top. -/
def nest (stack : List Char) (c : Char) : Option (List Char) :=
  match c, stack with
  | '{', stack => some ('{' :: stack)
  | '[', stack => some ('[' :: stack)
  | '}', '{' :: stack => some stack
  | ']', '[' :: stack => some stack
  | '}', _ => none
  | ']', _ => none
  | _, stack => some stack

/-- The brackets that a text leaves open, the last opened first. -/
def openAfter? (text : Text) : Option (List Char) := text.foldlM nest []

/-- The brackets that are open at a level. -/
def openAt (level : Int) : List Char :=
  List.replicate level.natAbs (if 0 < level then '{' else '[')

/-- The level of the last tag, zero for none. -/
def lastLevel (p : Prompt) : Int := (p.getLast?.map fun tag => tag.level.toInt).getD 0

/-- A text that leads from the brackets of one level to those of another, with the brackets of some
level open at each place on the way. -/
inductive Leads : Int → Text → Int → Prop
  | nil (level : Int) : Leads level [] level
  | cons {level between target : Int} {c : Char} {text : Text}
      (hstep : nest (openAt level) c = some (openAt between)) (h : Leads between text target) :
      Leads level (c :: text) target

/-! ### One character -/

theorem length_openAt (level : Int) : (openAt level).length = level.natAbs :=
  List.length_replicate

theorem openAt_eq_nil_iff : openAt level = [] ↔ level = 0 := by
  rw [← List.length_eq_zero_iff, length_openAt, Int.natAbs_eq_zero]

theorem openAt_of_nonneg (n : Nat) : openAt n = List.replicate n '{' := by
  cases n with
  | zero => rfl
  | succ n =>
      have hpos : (0 : Int) < (n + 1 : Nat) := by omega
      rw [openAt, if_pos hpos, Int.natAbs_natCast]

theorem openAt_of_nonpos (n : Nat) : openAt (-n) = List.replicate n '[' := by
  have hneg : ¬(0 : Int) < -n := by omega
  rw [openAt, if_neg hneg, Int.natAbs_neg, Int.natAbs_natCast]

theorem openAt_raised (h : 0 ≤ level) : openAt (level + 1) = '{' :: openAt level := by
  obtain ⟨n, rfl⟩ := Int.eq_ofNat_of_zero_le h
  rw [openAt_of_nonneg, ← List.replicate_succ, ← openAt_of_nonneg, Int.natCast_succ]

theorem openAt_lowered (h : level ≤ 0) : openAt (level - 1) = '[' :: openAt level := by
  obtain ⟨n, hn⟩ := Int.eq_ofNat_of_zero_le (Int.neg_nonneg_of_nonpos h)
  obtain rfl : level = -n := by omega
  rw [openAt_of_nonpos, ← List.replicate_succ, ← openAt_of_nonpos]
  congr 1
  omega

theorem not_both_open (level : Int) : ¬('{' ∈ openAt level ∧ '[' ∈ openAt level) := by
  rintro ⟨hbrace, hbracket⟩
  have heq := (List.eq_of_mem_replicate hbrace).trans (List.eq_of_mem_replicate hbracket).symm
  exact absurd heq (by decide)

theorem nest_of_unbracketed {c : Char} (h : levelChange? c = none) (stack : List Char) :
    nest stack c = some stack := by
  rw [levelChange?_eq_none_iff] at h
  simp only [List.mem_cons, List.not_mem_nil, or_false, not_or] at h
  unfold nest
  split <;> simp_all

/-! ### Texts of one kind -/

namespace Leads

theorem append (hfront : Leads level front between) (hrest : Leads between rest target) :
    Leads level (front ++ rest) target := by
  induction hfront with
  | nil => exact hrest
  | cons hstep _ ih => exact .cons hstep (ih hrest)

theorem of_unbracketed (h : ∀ c ∈ text, levelChange? c = none) (level : Int) :
    Leads level text level := by
  induction text with
  | nil => exact .nil level
  | cons c rest ih =>
      obtain ⟨hc, hrest⟩ := List.forall_mem_cons.mp h
      exact .cons (nest_of_unbracketed hc _) (ih hrest)

theorem foldlM_eq (h : Leads level text target) :
    text.foldlM nest (openAt level) = some (openAt target) := by
  induction h with
  | nil => rfl
  | cons hstep _ ih => rw [List.foldlM_cons, hstep, Option.bind_eq_bind, Option.bind_some, ih]

/-- At every place of the way the brackets of some level are open. -/
theorem exists_of_isPrefix (h : Leads level text target) (hfront : front <+: text) :
    ∃ between, Leads level front between := by
  induction h generalizing front with
  | nil level =>
      obtain rfl := List.prefix_nil.mp hfront
      exact ⟨level, .nil level⟩
  | @cons level between target c text hstep _ ih =>
      cases front with
      | nil => exact ⟨level, .nil level⟩
      | cons d front =>
          obtain ⟨rfl, htail⟩ := List.cons_prefix_cons.mp hfront
          obtain ⟨last, hlast⟩ := ih htail
          exact ⟨last, .cons hstep hlast⟩

/-- Brackets of one kind lead along a path of levels, one step each. -/
theorem replicate {c : Char} (path : Nat → Int) (count : Nat)
    (hstep : ∀ k < count, nest (openAt (path k)) c = some (openAt (path (k + 1)))) :
    Leads (path 0) (List.replicate count c) (path count) := by
  induction count generalizing path with
  | zero => exact nil (path 0)
  | succ count ih =>
      refine cons (hstep 0 (Nat.succ_pos count)) (ih (fun k => path (k + 1)) fun k hk => ?_)
      exact hstep (k + 1) (Nat.succ_lt_succ hk)

end Leads

/-! ### What the writer puts between texts -/

section Steps

variable {next : Int}

theorem nest_raising (h : 0 ≤ level) (hnext : next = level + 1) :
    nest (openAt level) '{' = some (openAt next) := by
  rw [hnext, openAt_raised h]
  rfl

theorem nest_lowering (h : level ≤ 0) (hnext : next = level - 1) :
    nest (openAt level) '[' = some (openAt next) := by
  rw [hnext, openAt_lowered h]
  rfl

theorem nest_end_of_raising (h : 0 ≤ next) (hnext : next = level - 1) :
    nest (openAt level) '}' = some (openAt next) := by
  obtain rfl : level = next + 1 := by omega
  rw [openAt_raised h]
  rfl

theorem nest_end_of_lowering (h : next ≤ 0) (hnext : next = level + 1) :
    nest (openAt level) ']' = some (openAt next) := by
  obtain rfl : level = next - 1 := by omega
  rw [openAt_lowered h]
  rfl

end Steps

theorem leads_closing (level target : Int) :
    Leads level (closing level target) (waypoint level target) := by
  -- one of the two runs is empty, so the second begins at the level where the first ends
  have hlowering := Leads.replicate (fun k => level + k) (min target 0 - level).toNat
    fun k hk => nest_end_of_lowering (by omega) (by omega)
  have hraising := Leads.replicate (fun k => max level (min target 0) - k)
    (level - max target 0).toNat fun k hk => nest_end_of_raising (by omega) (by omega)
  have hmiddle : level + (min target 0 - level).toNat = max level (min target 0) := by omega
  have hend : max level (min target 0) - (level - max target 0).toNat = waypoint level target := by
    unfold waypoint
    omega
  simp only [hmiddle, hend, Nat.cast_zero, add_zero, sub_zero] at hlowering hraising
  exact hlowering.append hraising

theorem leads_opening (level target : Int) :
    Leads (waypoint level target) (opening level target) target := by
  have hraising := Leads.replicate (fun k => waypoint level target + k)
    (target - max level 0).toNat fun k hk => nest_raising (by unfold waypoint; omega) (by omega)
  have hlowering := Leads.replicate (fun k => max (waypoint level target) target - k)
    (min level 0 - target).toNat fun k hk => nest_lowering (by unfold waypoint; omega) (by omega)
  have hmiddle : waypoint level target + (target - max level 0).toNat =
      max (waypoint level target) target := by
    unfold waypoint
    omega
  have hend : max (waypoint level target) target - (min level 0 - target).toNat = target := by
    unfold waypoint
    omega
  simp only [hmiddle, hend, Nat.cast_zero, add_zero, sub_zero] at hlowering hraising
  exact hraising.append hlowering

theorem leads_text {t : Text} (h : t.IsPlain) (level : Int) : Leads level t level :=
  .of_unbracketed (fun c hc => (not_mem_marks_iff.mp (h.unmarked c hc)).2) level

theorem leads_between (level target : Int) :
    Leads level (closing level target ++ separator ++ opening level target) target := by
  have hseparator : Leads (waypoint level target) separator (waypoint level target) :=
    .of_unbracketed (by simp [separator, levelChange?]) _
  exact ((leads_closing level target).append hseparator).append (leads_opening level target)

/-- What is written behind a tag comes to the text of each later tag at the level of that tag, and
up to there it does not depend on the tags behind. -/
theorem exists_continuation_eq {front : Prompt} (h : IsPlain front) (level : Int) (tag : Tag) :
    ∃ before, Leads level before tag.level.toInt ∧ ∀ rest,
      continuation level (front ++ tag :: rest) =
        before ++ tag.text ++ continuation tag.level.toInt rest := by
  induction front generalizing level with
  | nil =>
      exact ⟨closing level tag.level.toInt ++ separator ++ opening level tag.level.toInt,
        leads_between level tag.level.toInt, fun rest => by simp [continuation]⟩
  | cons first front ih =>
      obtain ⟨hfirst, hfront⟩ := isPlain_cons.mp h
      obtain ⟨before, hbefore, heq⟩ := ih hfront first.level.toInt
      have hway := (leads_between level first.level.toInt).append (leads_text hfirst _)
      exact ⟨_, hway.append hbefore, fun rest => by simp [continuation, heq]⟩

/-! ### The written prompt -/

/-- What the writer has written when it comes to the text of a tag. -/
theorem exists_render_eq {front : Prompt} {tag : Tag} (hfront : IsPlain front)
    (htag : tag.text.IsPlain) :
    ∃ before, Leads 0 before tag.level.toInt ∧ ∀ rest, IsPlain rest →
      render (front ++ tag :: rest) = before ++ tag.text ++ continuation tag.level.toInt rest := by
  cases front with
  | nil =>
      have hopening := leads_opening 0 tag.level.toInt
      rw [waypoint_zero] at hopening
      exact ⟨opening 0 tag.level.toInt, hopening,
        fun rest hrest => render_cons (isPlain_cons.mpr ⟨htag, hrest⟩)⟩
  | cons first front =>
      obtain ⟨hfirst, hfront⟩ := isPlain_cons.mp hfront
      obtain ⟨before, hbefore, heq⟩ := exists_continuation_eq hfront first.level.toInt tag
      have hopening := leads_opening 0 first.level.toInt
      rw [waypoint_zero] at hopening
      refine ⟨opening 0 first.level.toInt ++ first.text ++ before,
        (hopening.append (leads_text hfirst _)).append hbefore, fun rest hrest => ?_⟩
      have hplain : IsPlain (first :: (front ++ tag :: rest)) :=
        isPlain_cons.mpr ⟨hfirst, isPlain_append.mpr ⟨hfront, isPlain_cons.mpr ⟨htag, hrest⟩⟩⟩
      rw [List.cons_append, render_cons hplain, heq]
      simp

theorem leads_render {p : Prompt} (h : p.IsPlain) : Leads 0 (render p) (lastLevel p) := by
  rcases List.eq_nil_or_concat p with rfl | ⟨front, tag, rfl⟩
  · exact .nil 0
  · rw [List.concat_eq_append] at h ⊢
    obtain ⟨hfront, hlast⟩ := isPlain_append.mp h
    obtain ⟨htag, -⟩ := isPlain_cons.mp hlast
    obtain ⟨before, hbefore, heq⟩ := exists_render_eq hfront htag
    have hlevel : lastLevel (front ++ [tag]) = tag.level.toInt := by simp [lastLevel]
    rw [heq [] isPlain_nil, hlevel, continuation, List.append_nil]
    exact hbefore.append (leads_text htag tag.level.toInt)

theorem openAfter?_of_leads (h : Leads 0 text level) : openAfter? text = some (openAt level) :=
  h.foldlM_eq

/-- **Written brackets nest.** On a stack of the brackets that are open, every bracket of a written
prompt that closes one finds its own kind on top, and brackets of both kinds are never open together.
When the writer comes to the text of a tag, which is where the prompt up to that tag would end, as
many brackets are open as the level of the tag says, raising ones for a positive level, lowering ones
for a negative; at the end it is those of the last tag, so the text is balanced exactly when the last
tag has level zero. -/
theorem written_brackets_nest (p : Prompt) (h : p.IsPlain) :
    (∀ front, front <+: render p → ∃ stack, openAfter? front = some stack ∧
      ¬('{' ∈ stack ∧ '[' ∈ stack)) ∧
    (∀ front tag rest, p = front ++ tag :: rest → ∃ before behind,
      render (front ++ [tag]) = before ++ tag.text ∧ render p = before ++ tag.text ++ behind ∧
      openAfter? before = some (openAt tag.level.toInt)) ∧
    openAfter? (render p) = some (openAt (lastLevel p)) ∧
    (openAfter? (render p) = some [] ↔ ∀ tag ∈ p.getLast?, tag.level = 0) := by
  have hwhole := openAfter?_of_leads (leads_render h)
  refine ⟨fun front hfront => ?_, ?_, hwhole, ?_⟩
  · obtain ⟨level, hlevel⟩ := (leads_render h).exists_of_isPrefix hfront
    exact ⟨openAt level, openAfter?_of_leads hlevel, not_both_open level⟩
  · rintro front tag rest rfl
    obtain ⟨hfront, hbehind⟩ := isPlain_append.mp h
    obtain ⟨htag, hrest⟩ := isPlain_cons.mp hbehind
    obtain ⟨before, hbefore, heq⟩ := exists_render_eq hfront htag
    refine ⟨before, continuation tag.level.toInt rest, ?_, heq rest hrest,
      openAfter?_of_leads hbefore⟩
    simpa [continuation] using heq [] isPlain_nil
  · rw [hwhole, Option.some.injEq, openAt_eq_nil_iff, lastLevel]
    cases p.getLast? <;> simp [← Int32.toInt_inj]

/-- From raising groups straight to lowering ones, one of which stays open at the end. -/
theorem written_brackets_nest_across_zero :
    IsPlain [⟨['a'], 2⟩, ⟨['b'], -2⟩, ⟨['c'], -1⟩] ∧
      ['{', '{', 'a', '}'] <+: render [⟨['a'], 2⟩, ⟨['b'], -2⟩, ⟨['c'], -1⟩] ∧
      (∃ stack, openAfter? ['{', '{', 'a', '}'] = some stack ∧ ¬('{' ∈ stack ∧ '[' ∈ stack)) ∧
      (∃ before behind, render [⟨['a'], 2⟩, ⟨['b'], -2⟩] = before ++ ['b'] ∧
        render [⟨['a'], 2⟩, ⟨['b'], -2⟩, ⟨['c'], -1⟩] = before ++ ['b'] ++ behind ∧
        openAfter? before = some ['[', '[']) ∧
      openAfter? (render [⟨['a'], 2⟩, ⟨['b'], -2⟩, ⟨['c'], -1⟩]) = some ['['] := by
  obtain ⟨hfronts, htags, hend, -⟩ :=
    written_brackets_nest [⟨['a'], 2⟩, ⟨['b'], -2⟩, ⟨['c'], -1⟩] (by decide)
  exact ⟨by decide, by decide, hfronts _ (by decide), htags [⟨['a'], 2⟩] ⟨['b'], -2⟩ _ rfl, hend⟩

end TagPrompt.Prompt
