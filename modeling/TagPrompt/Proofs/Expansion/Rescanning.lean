import TagPrompt.Proofs.Expansion.Nesting

/-! Expansion in place. The text is read character by character; when the outermost group closes, the
alternative chosen is spliced into the text in its place, and reading goes back to where the group
began. Going back, reading may come to the same place again and again, but every splice takes at
least the two marks of the group out of the text, so it comes to an end, with the expansion of the
text. -/

namespace TagPrompt

variable {σ : Type} [ChoiceSource σ]

/-- A text that is being expanded: the text as it stands, the place that is read next, how many
groups are open there, and of the outermost one where it began, its last alternative so far, newest
character first, and the alternatives before that, the newest first. Where no group is open, the last
three are left over from earlier. -/
structure Rescan where
  text : Text
  place : Nat := 0
  depth : Nat := 0
  start : Nat := 0
  held : Text := []
  done : List Text := []

namespace Rescan

/-- What reading on at the place comes to. -/
inductive Move
  /-- There is nothing left to read. -/
  | ended
  | reads (next : Rescan)
  /-- The outermost group closes, and these were its alternatives. -/
  | closes (alternatives : List Text)

/-- Goes past a character that belongs to the alternative, or stands outside groups. -/
def pass (scan : Rescan) (c : Char) (depth : Nat) : Move :=
  .reads { scan with place := scan.place + 1, depth, held := c :: scan.held }

def move (scan : Rescan) : Move :=
  match scan.text[scan.place]?, scan.depth with
  | none, _ => .ended
  | some '<', 0 =>
      .reads { text := scan.text, place := scan.place + 1, depth := 1, start := scan.place }
  | some '>', 1 => .closes (scan.held.reverse :: scan.done).reverse
  | some '|', 1 =>
      .reads { scan with
        place := scan.place + 1, held := [], done := scan.held.reverse :: scan.done }
  | some '<', depth + 1 => scan.pass '<' (depth + 2)
  | some '>', depth + 1 => scan.pass '>' depth
  | some c, depth => scan.pass c depth

/-- Puts a text in place of the group that the character at the place closes, and goes back to where
the group began. -/
def splice (scan : Rescan) (chosen : Text) : Rescan :=
  { text := scan.text.take scan.start ++ chosen ++ scan.text.drop (scan.place + 1)
    place := scan.start
    start := scan.start }

/-- The scan ends, after so many groups were replaced, with this text and this supply left. -/
inductive Ends : Rescan → σ → Nat → Text → σ → Prop
  | ended {scan : Rescan} {s : σ} (h : scan.move = .ended) : Ends scan s 0 scan.text s
  | reads {scan next : Rescan} {s s' : σ} {replaced : Nat} {out : Text}
      (h : scan.move = .reads next) (hends : Ends next s replaced out s') :
      Ends scan s replaced out s'
  | closes {scan : Rescan} {s s' : σ} {alternatives : List Text} {replaced : Nat} {out : Text}
      (h : scan.move = .closes alternatives)
      (hends : Ends (scan.splice ((ChoiceSource.pick alternatives s).1.getD []))
        (ChoiceSource.pick alternatives s).2 replaced out s') :
      Ends scan s (replaced + 1) out s'

theorem Ends.unique {scan : Rescan} {s s' s'' : σ} {replaced replaced' : Nat} {out out' : Text}
    (h : Ends scan s replaced out s') (h' : Ends scan s replaced' out' s'') :
    replaced' = replaced ∧ out' = out ∧ s'' = s' := by
  induction h generalizing replaced' with
  | ended hmove =>
      cases h' with
      | ended => exact ⟨rfl, rfl, rfl⟩
      | reads hmove' => cases hmove.symm.trans hmove'
      | closes hmove' => cases hmove.symm.trans hmove'
  | reads hmove _ ih =>
      cases h' with
      | ended hmove' => cases hmove.symm.trans hmove'
      | reads hmove' hends =>
          cases hmove.symm.trans hmove'
          exact ih hends
      | closes hmove' => cases hmove.symm.trans hmove'
  | closes hmove _ ih =>
      cases h' with
      | ended hmove' => cases hmove.symm.trans hmove'
      | reads hmove' => cases hmove.symm.trans hmove'
      | closes hmove' hends =>
          cases hmove.symm.trans hmove'
          obtain ⟨rfl, rfl, rfl⟩ := ih hends
          exact ⟨rfl, rfl, rfl⟩

/-! ### One move -/

/-- The scan that has read `before` and is to read `rest`. -/
def between (before rest : Text) (depth start : Nat) (held : Text) (done : List Text) : Rescan :=
  ⟨before ++ rest, before.length, depth, start, held, done⟩

variable (before rest : Text) (depth start : Nat) (held : Text) (done : List Text)

theorem move_nil : (between before [] depth start held done).move = .ended := by
  simp [between, move]

theorem move_begin :
    (between before ('<' :: rest) 0 start held done).move =
      .reads (between (before ++ ['<']) rest 1 before.length [] []) := by
  simp [between, move]

theorem move_outside {c : Char} (hc : c ≠ '<') :
    (between before (c :: rest) 0 start held done).move =
      .reads (between (before ++ [c]) rest 0 start (c :: held) done) := by
  simp [between, move, pass, hc]

theorem move_opening :
    (between before ('<' :: rest) (depth + 1) start held done).move =
      .reads (between (before ++ ['<']) rest (depth + 2) start ('<' :: held) done) := by
  simp [between, move, pass]

theorem move_closing :
    (between before ('>' :: rest) (depth + 2) start held done).move =
      .reads (between (before ++ ['>']) rest (depth + 1) start ('>' :: held) done) := by
  simp [between, move, pass]

theorem move_end :
    (between before ('>' :: rest) 1 start held done).move =
      .closes (held.reverse :: done).reverse := by
  simp [between, move]

theorem move_bar :
    (between before ('|' :: rest) 1 start held done).move =
      .reads (between (before ++ ['|']) rest 1 start [] (held.reverse :: done)) := by
  simp [between, move]

theorem move_other {c : Char} (hopen : c ≠ '<') (hclose : c ≠ '>') (hbar : ¬(c = '|' ∧ depth = 0)) :
    (between before (c :: rest) (depth + 1) start held done).move =
      .reads (between (before ++ [c]) rest (depth + 1) start (c :: held) done) := by
  have hread : (before ++ c :: rest)[before.length]? = some c := by simp
  rw [between, move]
  split <;> simp_all [pass, between]

/-! ### Inside a group -/

variable {before rest depth start held done} {front out : Text} {group : ChoiceGroup} {s s' : σ}
  {replaced : Nat}

/-- A group that never closes is read to the end of the text. -/
theorem ends_of_open (h : ChoiceGroup.readFrom depth held done rest = none) (before : Text) :
    Ends (between before rest (depth + 1) start held done) s 0 (before ++ rest) s := by
  fun_induction ChoiceGroup.readFrom depth held done rest generalizing before with
  | case1 => exact .ended (move_nil ..)
  | case2 depth held done rest ih =>
      rw [List.append_cons]
      exact .reads (move_opening ..) (ih h (before ++ ['<']))
  | case3 => cases h
  | case4 => cases h
  | case5 held done rest inner _ ih =>
      rw [List.append_cons]
      exact .reads (move_closing ..) (ih h (before ++ ['>']))
  | case6 depth held done c rest _ _ hbar ih =>
      obtain ⟨rfl, rfl⟩ := hbar
      rw [List.append_cons]
      exact .reads (move_bar ..) (ih h (before ++ ['|']))
  | case7 depth held done c rest hopen hclose hbar ih =>
      rw [List.append_cons]
      exact .reads (move_other _ _ _ _ _ _ hopen hclose hbar) (ih h (before ++ [c]))

theorem splice_between (hfront : front <+: before) (chosen : Text) :
    (between before ('>' :: rest) depth front.length held done).splice chosen =
      between front (chosen ++ rest) 0 front.length [] [] := by
  obtain ⟨body, rfl⟩ := hfront
  have hfront : (front ++ body ++ '>' :: rest).take front.length = front := by simp
  have hafter : (front ++ body ++ '>' :: rest).drop ((front ++ body).length + 1) = rest := by
    rw [List.append_cons]
    exact List.drop_left' (by rw [List.length_append, List.length_singleton])
  rw [between, splice, hfront, hafter, List.append_assoc]
  rfl

/-- At the closing mark the scan goes back to the chosen alternative. -/
theorem ends_of_end (halternatives : group.alternatives = (held.reverse :: done).reverse)
    (hafter : group.after = rest) (hfront : front <+: before)
    (hends : Ends
      (between front ((ChoiceSource.pickOne group.first group.more s).1 ++ group.after) 0
        front.length [] [])
      (ChoiceSource.pickOne group.first group.more s).2 replaced out s') :
    Ends (between before ('>' :: rest) 1 front.length held done) s (replaced + 1) out s' := by
  apply Ends.closes (move_end ..)
  rw [splice_between hfront, ← halternatives, ← hafter]
  exact hends

/-- A group that closes is read up to its end. -/
theorem ends_of_closed (h : ChoiceGroup.readFrom depth held done rest = some group)
    (hfront : front <+: before)
    (hends : Ends
      (between front ((ChoiceSource.pickOne group.first group.more s).1 ++ group.after) 0
        front.length [] [])
      (ChoiceSource.pickOne group.first group.more s).2 replaced out s') :
    Ends (between before rest (depth + 1) front.length held done) s (replaced + 1) out s' := by
  fun_induction ChoiceGroup.readFrom depth held done rest generalizing before with
  | case1 => cases h
  | case2 depth held done rest ih =>
      exact .reads (move_opening ..) (ih h (hfront.trans (List.prefix_append before ['<'])))
  | case3 held done rest hdone =>
      obtain rfl := Option.some.inj h
      exact ends_of_end (by simp [ChoiceGroup.alternatives, hdone]) rfl hfront hends
  | case4 held done rest first more hdone =>
      obtain rfl := Option.some.inj h
      exact ends_of_end (by simp [ChoiceGroup.alternatives, hdone]) rfl hfront hends
  | case5 held done rest inner _ ih =>
      exact .reads (move_closing ..) (ih h (hfront.trans (List.prefix_append before ['>'])))
  | case6 depth held done c rest _ _ hbar ih =>
      obtain ⟨rfl, rfl⟩ := hbar
      exact .reads (move_bar ..) (ih h (hfront.trans (List.prefix_append before ['|'])))
  | case7 depth held done c rest hopen hclose hbar ih =>
      exact .reads (move_other _ _ _ _ _ _ hopen hclose hbar)
        (ih h (hfront.trans (List.prefix_append before [c])))

/-! ### A whole text -/

/-- From outside groups the scan ends, with what it has read in front of the expansion of the rest,
which every group replaced has made at least two characters shorter. -/
theorem exists_ends_between (rest : Text) (s : σ) (before : Text) (start : Nat) (held : Text)
    (done : List Text) :
    ∃ replaced, Ends (between before rest 0 start held done) s replaced
        (before ++ (expandGroups rest s).1) (expandGroups rest s).2 ∧
      (expandGroups rest s).1.length + 2 * replaced ≤ rest.length := by
  fun_induction expandGroups rest s generalizing before start held done with
  | case1 s => exact ⟨0, .ended (move_nil ..), Nat.le_refl 0⟩
  | case2 s rest hread =>
      refine ⟨0, ?_, Nat.le_refl _⟩
      rw [List.append_cons]
      exact .reads (move_begin ..) (ends_of_open hread (before ++ ['<']))
  | case3 s rest group hgroup choice _ ih =>
      obtain ⟨replaced, hends, hlength⟩ := ih before before.length [] []
      have hshorter := ChoiceGroup.length_splice_lt hgroup
        (List.get_mem group.alternatives choice.1)
      refine ⟨replaced + 1, ?_, ?_⟩
      · exact .reads (move_begin ..)
          (ends_of_closed hgroup (List.prefix_append before ['<']) hends)
      · rw [List.length_cons]
        omega
  | case4 s c rest hc expanded s' hrest ih =>
      obtain ⟨replaced, hends, hlength⟩ := ih (before ++ [c]) start (c :: held) done
      rw [hrest] at hends hlength
      refine ⟨replaced, ?_, ?_⟩
      · rw [List.append_cons]
        exact .reads (move_outside _ _ _ _ _ hc) hends
      · simp only [List.length_cons] at hlength ⊢
        omega

end Rescan

/-- Nothing comes into a text but by taking away what is around it. -/
theorem expandGroups_sublist (text : Text) (s : σ) : (expandGroups text s).1.Sublist text := by
  fun_induction expandGroups text s with
  | case1 s => exact List.Sublist.refl []
  | case2 s rest hread => exact List.Sublist.refl ('<' :: rest)
  | case3 s rest group hgroup choice _ ih =>
      have hsplice := ChoiceGroup.splice_sublist hgroup (List.get_mem group.alternatives choice.1)
      exact (ih.trans hsplice).cons '<'
  | case4 s c rest hc expanded s' hrest ih =>
      rw [hrest] at ih
      exact ih.cons_cons c

/-- **Rescanning ends.** Whatever supply makes the choices, the scan of a text comes to an end, and to
one end only: the expansion of the text, and the supply that the expansion leaves. The scan has only
taken characters out of the text, and for every group that it replaced, one choice each, at least
two. -/
theorem rescanning_ends (text : Text) {σ : Type} [ChoiceSource σ] (s : σ) :
    ∃ replaced,
      (∀ replaced' out s', Rescan.Ends { text } s replaced' out s' ↔
        replaced' = replaced ∧ out = (expandGroups text s).1 ∧ s' = (expandGroups text s).2) ∧
      (expandGroups text s).1.Sublist text ∧
      (expandGroups text s).1.length + 2 * replaced ≤ text.length := by
  obtain ⟨replaced, hends, hlength⟩ := Rescan.exists_ends_between text s [] 0 [] []
  refine ⟨replaced, fun replaced' out s' => ⟨hends.unique, ?_⟩, expandGroups_sublist text s, hlength⟩
  rintro ⟨rfl, rfl, rfl⟩
  exact hends

end TagPrompt
