import TagPrompt.Proofs.Prompt.Presentation
import TagPrompt.Proofs.Text.Split

/-! Taking the tags that some entries name. A tag matches one entry only and is taken for the first
entry that it matches, so entries that come again take nothing more, and only there does moving tags
out of a prompt differ from copying them. Moving can be done in place: the prompt is read tag by
tag, and where a tag is taken out the next one moves up to the position that is read. -/

namespace TagPrompt.Prompt

variable {lead entry : Text} {entries : List Text} {p : Prompt} {tag : Tag}

/-- The text of a tag is the entry, with `lead` in front of it if it begins with that. -/
def Matches (lead entry : Text) (tag : Tag) : Prop :=
  if lead <+: tag.text then tag.text = lead ++ entry else tag.text = entry

instance (lead entry : Text) (tag : Tag) : Decidable (Matches lead entry tag) :=
  inferInstanceAs (Decidable (if lead <+: tag.text then tag.text = lead ++ entry else _))

/-- Whether the tags that are taken leave the prompt. -/
inductive Taking
  | moving
  | copying
  deriving DecidableEq, Repr

/-- Moves the tags that answer to an entry out of a prompt in place, reading from `position` on. The
position stays where a tag is taken out, because the next one has moved up to it. -/
def moveInPlace (lead entry : Text) (taken p : Prompt) (position : Nat) : Prompt × Prompt :=
  if h : position < p.length then
    if answers lead entry p[position] then
      moveInPlace lead entry (taken ++ [p[position]]) (p.eraseIdx position) position
    else moveInPlace lead entry taken p (position + 1)
  else (taken, p)
termination_by p.length - position
decreasing_by
  · rw [List.length_eraseIdx_of_lt h]
    omega
  · omega

/-- Takes the tags that answer to one more entry: what is taken by then, and what is left of the
prompt. -/
def takeEntry (taking : Taking) (lead : Text) : Prompt × Prompt → Text → Prompt × Prompt
  | (taken, left), entry =>
      match taking with
      | .moving => moveInPlace lead entry taken left 0
      | .copying => (taken ++ left.filter (answers lead entry), left)

/-- Takes the tags that answer to the entries, entry by entry, from a prompt that changes in place.
-/
def extract (taking : Taking) (lead : Text) (entries : List Text) (p : Prompt) : Prompt × Prompt :=
  entries.foldl (takeEntry taking lead) ([], p)

/-! ### Matching -/

theorem answers_iff : answers lead entry tag = true ↔ Matches lead entry tag := by
  rw [answers, beq_iff_eq, Text.strip, Matches]
  split_ifs with hlead
  · obtain ⟨rest, hrest⟩ := hlead
    rw [← hrest, Text.after?_append, Option.getD_some, List.append_cancel_left_eq]
  · cases hafter : Text.after? lead tag.text with
    | none => rfl
    | some rest => exact absurd ⟨rest, (Text.after?_eq_some_iff.mp hafter).symm⟩ hlead

theorem eq_of_answers {entry' : Text} (h : answers lead entry tag = true)
    (h' : answers lead entry' tag = true) : entry = entry' :=
  (eq_of_beq h).symm.trans (eq_of_beq h')

theorem filter_answers_eq (lead entry : Text) (p : Prompt) :
    p.filter (answers lead entry) = p.filter fun tag => Matches lead entry tag := by
  apply List.filter_congr
  intro tag _
  rw [Bool.eq_iff_iff, answers_iff, decide_eq_true_eq]

theorem listedIn_iff :
    listedIn lead entries tag = true ↔ ∃ entry ∈ entries, Matches lead entry tag := by
  induction entries with
  | nil => simp [listedIn]
  | cons entry entries ih =>
      rw [listedIn_cons, Bool.or_eq_true, ih, answers_iff, List.exists_mem_cons_iff]

/-! ### In place -/

/-- In front of the position stand the tags that stay, behind it those that are still to be read. -/
theorem moveInPlace_append (lead entry : Text) (taken front back : Prompt) :
    moveInPlace lead entry taken (front ++ back) front.length =
      (taken ++ back.filter (answers lead entry),
        front ++ back.filter fun tag => !answers lead entry tag) := by
  induction back generalizing taken front with
  | nil =>
      rw [moveInPlace, dif_neg (by simp)]
      simp
  | cons tag back ih =>
      have hposition : front.length < (front ++ tag :: back).length := by simp
      have htag : (front ++ tag :: back)[front.length] = tag := by simp
      have herase : (front ++ tag :: back).eraseIdx front.length = front ++ back := by
        rw [List.eraseIdx_append_of_length_le (Nat.le_refl _), Nat.sub_self,
          List.eraseIdx_cons_zero]
      have hnext : front ++ tag :: back = (front ++ [tag]) ++ back := by simp
      have hmove : front.length + 1 = (front ++ [tag]).length := by simp
      rw [moveInPlace, dif_pos hposition, htag, herase]
      split_ifs with hanswers
      · rw [ih]
        simp [hanswers]
      · rw [hnext, hmove, ih]
        simp [hanswers]

theorem moveInPlace_eq_filter (lead entry : Text) (taken p : Prompt) :
    moveInPlace lead entry taken p 0 =
      (taken ++ p.filter (answers lead entry), p.filter fun tag => !answers lead entry tag) :=
  moveInPlace_append lead entry taken [] p

theorem foldl_moving (lead : Text) (entries : List Text) (taken p : Prompt) :
    entries.foldl (takeEntry .moving lead) (taken, p) =
      (taken ++ (moveOut lead entries p).1, (moveOut lead entries p).2) := by
  induction entries generalizing taken p with
  | nil => simp [moveOut]
  | cons entry entries ih =>
      rw [List.foldl_cons, takeEntry, moveInPlace_eq_filter, ih]
      simp [moveOut, List.partition_eq_filter_filter, Function.comp_def]

theorem foldl_copying (lead : Text) (entries : List Text) (taken p : Prompt) :
    entries.foldl (takeEntry .copying lead) (taken, p) = (taken ++ copyOut lead entries p, p) := by
  induction entries generalizing taken with
  | nil => simp [copyOut]
  | cons entry entries ih =>
      rw [List.foldl_cons, takeEntry, ih]
      simp [copyOut]

theorem extract_moving (lead : Text) (entries : List Text) (p : Prompt) :
    extract .moving lead entries p = moveOut lead entries p :=
  foldl_moving lead entries [] p

theorem extract_copying (lead : Text) (entries : List Text) (p : Prompt) :
    extract .copying lead entries p = (copyOut lead entries p, p) :=
  foldl_copying lead entries [] p

/-! ### Entries that come again -/

/-- An entry that no tag answers to takes nothing, wherever it stands. -/
theorem moveOut_filter_ne (h : ∀ tag ∈ p, answers lead entry tag = false) :
    moveOut lead (entries.filter fun other => !other == entry) p = moveOut lead entries p := by
  induction entries generalizing p with
  | nil => rfl
  | cons other entries ih =>
      have hleft : ∀ tag ∈ p.filter (fun tag => !answers lead other tag),
          answers lead entry tag = false :=
        fun tag htag => h tag (List.mem_of_mem_filter htag)
      by_cases hother : other = entry
      · subst hother
        have hnone : p.filter (answers lead other) = [] :=
          List.filter_eq_nil_iff.mpr fun tag htag => Bool.eq_false_iff.mp (h tag htag)
        have hall : p.filter (fun tag => !answers lead other tag) = p :=
          List.filter_eq_self.mpr fun tag htag => by rw [h tag htag, Bool.not_false]
        simp [moveOut, List.partition_eq_filter_filter, Function.comp_def, hnone, hall, ih h]
      · simp [moveOut, List.partition_eq_filter_filter, Function.comp_def, hother, ih hleft]

theorem moveOut_taken (lead : Text) (entries : List Text) (p : Prompt) :
    (moveOut lead entries p).1 =
      entries.eraseDups.flatMap fun entry => p.filter (answers lead entry) := by
  match entries with
  | [] => rfl
  | entry :: entries =>
      let left := p.filter fun tag => !answers lead entry tag
      let others := entries.filter fun other => !other == entry
      have hleft : ∀ tag ∈ left, answers lead entry tag = false :=
        fun tag htag => by simpa using (List.mem_filter.mp htag).2
      have hothers : ∀ other ∈ others.eraseDups,
          left.filter (answers lead other) = p.filter (answers lead other) := by
        intro other hother
        have hne : other ≠ entry := by
          simpa using (List.mem_filter.mp (List.mem_eraseDups.mp hother)).2
        rw [List.filter_filter]
        apply List.filter_congr
        intro tag _
        cases hanswers : answers lead other tag with
        | false => rfl
        | true =>
            have hentry : answers lead entry tag ≠ true :=
              fun hentry => hne (eq_of_answers hanswers hentry)
            simp [hentry]
      calc (moveOut lead (entry :: entries) p).1
        _ = p.filter (answers lead entry) ++ (moveOut lead entries left).1 := by
            simp [moveOut, List.partition_eq_filter_filter, Function.comp_def, left]
        _ = p.filter (answers lead entry) ++ (moveOut lead others left).1 := by
            rw [moveOut_filter_ne hleft]
        _ = p.filter (answers lead entry) ++
            others.eraseDups.flatMap fun other => left.filter (answers lead other) := by
            rw [moveOut_taken lead others left]
        _ = p.filter (answers lead entry) ++
            others.eraseDups.flatMap fun other => p.filter (answers lead other) := by
            rw [List.flatMap_congr hothers]
        _ = _ := by rw [List.eraseDups_cons, List.flatMap_cons]
termination_by entries.length
decreasing_by
  exact Nat.lt_succ_of_le (List.length_filter_le _ entries)

theorem eraseDups_of_nodup (h : entries.Nodup) : entries.eraseDups = entries := by
  induction entries with
  | nil => rfl
  | cons entry entries ih =>
      obtain ⟨hnew, hrest⟩ := List.nodup_cons.mp h
      have hothers : entries.filter (fun other => !other == entry) = entries := by
        apply List.filter_eq_self.mpr
        intro other hother
        have hne : other ≠ entry := fun heq => hnew (heq ▸ hother)
        simpa using hne
      rw [List.eraseDups_cons, hothers, ih hrest]

/-- **Tags are taken entry by entry.** Taking tags from a prompt in place is moving them out of it,
or copying them and leaving it as it is. Moving leaves the tags that match no entry as they stand,
and what is taken are the tags that match the first entry, then those that match the next other one,
and so on, each time as they stand in the prompt; so no tag is lost and none comes twice. Copying
takes them for every entry, and differs from moving only where an entry comes again. -/
theorem tags_are_taken_by_entry (lead : Text) (entries : List Text) (p : Prompt) :
    let taken := (moveOut lead entries p).1
    let left := (moveOut lead entries p).2
    let copied := copyOut lead entries p
    extract .moving lead entries p = (taken, left) ∧
      extract .copying lead entries p = (copied, p) ∧
      left = p.filter (fun tag => ∀ entry ∈ entries, ¬Matches lead entry tag) ∧
      taken = entries.eraseDups.flatMap (fun entry => p.filter fun tag => Matches lead entry tag) ∧
      (taken ++ left).Perm p ∧
      copied = entries.flatMap (fun entry => p.filter fun tag => Matches lead entry tag) ∧
      (entries.Nodup → taken = copied) := by
  intro taken left copied
  have hleft : left = p.filter fun tag => ∀ entry ∈ entries, ¬Matches lead entry tag := by
    rw [show left = _ from moveOut_left lead entries p]
    apply List.filter_congr
    intro tag _
    rw [Bool.eq_iff_iff, Bool.not_eq_true', ← Bool.not_eq_true, listedIn_iff, decide_eq_true_eq]
    push Not
    exact Iff.rfl
  have htaken : taken = entries.eraseDups.flatMap fun entry => p.filter (answers lead entry) :=
    moveOut_taken lead entries p
  have hcopied : copied = entries.flatMap fun entry => p.filter (answers lead entry) := rfl
  have hnodup : entries.Nodup → taken = copied := by
    intro hentries
    rw [htaken, hcopied, eraseDups_of_nodup hentries]
  simp only [filter_answers_eq] at htaken hcopied
  exact ⟨extract_moving lead entries p, extract_copying lead entries p, hleft, htaken,
    moveOut_perm lead entries p, hcopied, hnodup⟩

/-- An entry that comes again takes nothing where tags are moved, and the same once more where they
are copied. -/
example :
    let entries := ["wlop".toList, "wlop".toList]
    let p : Prompt := [⟨"artist:wlop".toList, 1⟩, ⟨"wlop".toList, 0⟩, ⟨"rain".toList, 0⟩]
    (moveOut artistLead entries p).1.length = 2 ∧ (copyOut artistLead entries p).length = 4 := by
  decide

end TagPrompt.Prompt
