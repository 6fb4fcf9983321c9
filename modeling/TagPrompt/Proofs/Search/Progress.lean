import Mathlib.Data.List.Dedup
import TagPrompt.Proofs.Search.Failure

/-! What a search tells while it runs. Every fetch that arrives with positions is told as the part
of all fetches that has arrived, whatever its tag and whether or not the tag has slots, and what has
been combined from them is told at the end. A fetch that fails is the last that is looked at, so
what was told before it is all that is ever told. -/

namespace TagPrompt

/-- How much of `total` fetches has arrived after each of them, in percent. -/
def percents (total : Nat) : List Nat := (List.range' 1 total).map fun k => 100 * k / total

/-- The ascending list of the offsets that are in the set of every wanted fetch and in that of no
unwanted one. -/
structure Combines (jobs : List Job) (setOf : Job → PositionSet) (offsets : List Offset) :
    Prop where
  ascending : offsets.Pairwise (· < ·)
  mem_iff : ∀ x, x ∈ offsets ↔
    (∀ job ∈ jobs, job.role = .wanted → x ∈ setOf job) ∧
      ∀ job ∈ jobs, job.role = .unwanted → x ∉ setOf job

/-! ### Percentages -/

section Percents

variable {total count : Nat}

theorem length_percents (total : Nat) : (percents total).length = total := by
  rw [percents, List.length_map, List.length_range']

theorem percents_ascending (total : Nat) : (percents total).Pairwise (· ≤ ·) := by
  apply List.pairwise_map.mpr
  apply (List.pairwise_lt_range' : (List.range' 1 total).Pairwise (· < ·)).imp
  intro k later hlater
  exact Nat.div_le_div_right (Nat.mul_le_mul_left 100 (Nat.le_of_lt hlater))

theorem getLast?_percents (htotal : 0 < total) : (percents total).getLast? = some 100 := by
  obtain ⟨before, rfl⟩ := Nat.exists_eq_add_of_lt htotal
  rw [percents, Nat.zero_add, List.range'_1_concat, List.map_append, List.map_singleton,
    List.getLast?_concat, Nat.add_comm 1 before, Nat.mul_div_cancel _ (Nat.succ_pos before)]

theorem toldFrom_one (hcount : count ≤ total) :
    toldFrom total 1 count = ((percents total).take count).map .searching := by
  rw [percents, ← List.map_take, List.take_range'_of_length_ge hcount, List.map_map]
  rfl

end Percents

/-! ### Fetches and arrivals -/

variable {arrivals : List Arrival} {jobs : List Job} {setOf : Job → PositionSet} {role : Role}
  {set : PositionSet}

theorem mem_setsFor : set ∈ setsFor role arrivals ↔ ⟨role, .positions set⟩ ∈ arrivals := by
  rw [setsFor, List.mem_filterMap]
  constructor
  · rintro ⟨⟨other, fetched⟩, harrival, hset⟩
    cases fetched with
    | positions found =>
        simp only [Arrival.setFor?, Option.ite_none_right_eq_some, Option.some.injEq] at hset
        obtain ⟨rfl, rfl⟩ := hset
        exact harrival
    | failed error => cases hset
    | crashed => cases hset
  · intro harrival
    exact ⟨_, harrival, if_pos rfl⟩

theorem mem_setsFor_of_perm
    (hperm : arrivals.Perm (jobs.map fun job => ⟨job.role, .positions (setOf job)⟩)) :
    set ∈ setsFor role arrivals ↔ ∃ job ∈ jobs, job.role = role ∧ setOf job = set := by
  rw [mem_setsFor, hperm.mem_iff, List.mem_map]
  simp only [Arrival.mk.injEq, Fetched.positions.injEq]

/-- Whatever the order of the arrivals, their answer is what the sets of the fetches combine to. -/
theorem combines_answerOf
    (hperm : arrivals.Perm (jobs.map fun job => ⟨job.role, .positions (setOf job)⟩))
    (hwanted : ∃ job ∈ jobs, job.role = .wanted) :
    Combines jobs setOf (answerOf arrivals) where
  ascending := answerOf_ascending arrivals
  mem_iff x := by
    have hsome : setsFor .wanted arrivals ≠ [] := by
      obtain ⟨job, hjob, hrole⟩ := hwanted
      exact List.ne_nil_of_mem ((mem_setsFor_of_perm hperm).mpr ⟨job, hjob, hrole, rfl⟩)
    rw [mem_answerOf hsome]
    simp only [mem_setsFor_of_perm hperm]
    constructor
    · rintro ⟨hall, hnone⟩
      exact ⟨fun job hjob hrole => hall _ ⟨job, hjob, hrole, rfl⟩,
        fun job hjob hrole => hnone _ ⟨job, hjob, hrole, rfl⟩⟩
    · rintro ⟨hall, hnone⟩
      constructor
      · rintro set ⟨job, hjob, hrole, rfl⟩
        exact hall job hjob hrole
      · rintro set ⟨job, hjob, hrole, rfl⟩
        exact hnone job hjob hrole

namespace TagIndex

variable {index : TagIndex} {q : Query}

theorem length_jobsFor {tags : List Text}
    (h : ∀ tag ∈ tags, ∃ entry, index.get? tag = some entry) (role : Role) :
    (index.jobsFor role tags).length = tags.length := by
  apply List.filterMap_length_eq_length.mpr
  intro tag htag
  obtain ⟨entry, hentry⟩ := h tag htag
  rw [hentry]
  rfl

/-- There is one fetch for each tag of each list, also where the tag has no slots. -/
theorem length_jobsOf (h : index.Knows q) :
    (index.jobsOf q).length = q.wanted.length + q.unwanted.length := by
  obtain ⟨hwanted, hunwanted⟩ := List.forall_mem_append.mp h
  rw [jobsOf, List.length_append, length_jobsFor hwanted, length_jobsFor hunwanted]

theorem exists_wanted_job (h : index.Accepts q) : ∃ job ∈ index.jobsOf q, job.role = .wanted := by
  obtain ⟨tag, htag⟩ := List.exists_mem_of_ne_nil q.wanted h.wanted
  obtain ⟨entry, hentry⟩ := h.known tag (List.mem_append_left _ htag)
  refine ⟨⟨.wanted, entry⟩, List.mem_append_left _ ?_, rfl⟩
  rw [jobsFor, List.mem_filterMap]
  exact ⟨tag, htag, by rw [hentry]; rfl⟩

end TagIndex

/-! ### What is told -/

variable {before after : List Arrival} {failing : Arrival}

/-- Fetches that all bring positions are all told, and then how many offsets they combine to. -/
theorem told_of_brought {fetchOf : Job → Fetched}
    (hsets : ∀ job ∈ jobs, fetchOf job = .positions (setOf job))
    (hperm : arrivals.Perm (jobs.map fun job => ⟨job.role, fetchOf job⟩))
    (hwanted : ∃ job ∈ jobs, job.role = .wanted) (cache : AnswerCache) (q : Query) :
    ∃ offsets, Combines jobs setOf offsets ∧
      (conclude cache q arrivals).outcome =
        (if offsets = [] then .error .noMatches else .ok offsets) ∧
      (conclude cache q arrivals).progress =
        (percents jobs.length).map .searching ++ [.complete offsets.length] := by
  have hbrought : jobs.map (fun job => (⟨job.role, fetchOf job⟩ : Arrival)) =
      jobs.map fun job => ⟨job.role, .positions (setOf job)⟩ := by
    apply List.map_congr_left
    intro job hjob
    rw [hsets job hjob]
  rw [hbrought] at hperm
  have hsucceeded : ∀ arrival ∈ arrivals, arrival.Succeeded := by
    intro arrival harrival
    obtain ⟨job, -, rfl⟩ := List.mem_map.mp (hperm.mem_iff.mp harrival)
    exact ⟨setOf job, rfl⟩
  have hlength : arrivals.length = jobs.length := by rw [hperm.length_eq, List.length_map]
  refine ⟨answerOf arrivals, combines_answerOf hperm hwanted, ?_⟩
  rw [conclude_eq_of_succeeded hsucceeded, hlength, toldFrom_one (Nat.le_refl jobs.length),
    List.take_of_length_le (Nat.le_of_eq (length_percents jobs.length)), ← nonEmpty_eq]
  exact ⟨rfl, rfl⟩

/-- Nothing is told of the first fetch that fails, nor of any that would have followed. -/
theorem told_before_failure (hbefore : ∀ arrival ∈ before, arrival.Succeeded)
    (hfailing : ¬failing.Succeeded) (cache : AnswerCache) (q : Query) :
    (conclude cache q (before ++ failing :: after)).progress =
      ((percents (before ++ failing :: after).length).take before.length).map .searching := by
  obtain ⟨error, herror⟩ := Option.ne_none_iff_exists'.mp (mt failure?_eq_none_iff.mp hfailing)
  have hcount : before.length ≤ (before ++ failing :: after).length := by
    rw [List.length_append]
    exact Nat.le_add_right _ _
  rw [conclude_eq_of_failed hbefore herror, toldFrom_one hcount]

/-- **Progress is exact.** Where a search needs fetches, there is one for each tag of each list of
its query. If they all bring positions, then in whatever order they arrive, each is told as the part
of all that has arrived by then, in percent, and last the number of offsets that they combine to,
also where that is none. If some bring none, what is told is cut off before the first of these. A
search over a source takes its fetches in one of these orders. -/
theorem progress_in_every_order (r : Resolver) (cache : AnswerCache) (q : Query) (hmade : q.Made)
    (haccepts : r.index.Accepts q) (hmiss : cache.get? q.key = none) :
    let total := q.wanted.dedup.length + q.unwanted.dedup.length
    (percents total).length = total ∧ (percents total).Pairwise (· ≤ ·) ∧
      (percents total).getLast? = some 100 ∧
      ∃ jobs, plan r.index cache q = .fetch jobs ∧ jobs.length = total ∧
        (∀ (fetchOf : Job → Fetched) (arrivals : List Arrival),
          arrivals.Perm (jobs.map fun job => ⟨job.role, fetchOf job⟩) →
          let concluded := conclude cache q arrivals
          (∀ setOf : Job → PositionSet, (∀ job ∈ jobs, fetchOf job = .positions (setOf job)) →
            ∃ offsets, Combines jobs setOf offsets ∧
              concluded.outcome = (if offsets = [] then .error .noMatches else .ok offsets) ∧
              concluded.progress =
                (percents total).map .searching ++ [.complete offsets.length]) ∧
          ∀ before failing after, arrivals = before ++ failing :: after →
            (∀ arrival ∈ before, arrival.Succeeded) → ¬failing.Succeeded →
              concluded.progress = ((percents total).take before.length).map .searching) ∧
        ∃ arrivals, arrivals.Perm (jobs.map r.arrival) ∧
          (r.resolve cache q).progress = (conclude cache q arrivals).progress := by
  intro total
  have hclean : q.IsClean := hmade.isClean
  have htotal : (r.index.jobsOf q).length = total := by
    rw [TagIndex.length_jobsOf haccepts.known]
    simp only [total, hclean.wanted_nodup.dedup, hclean.unwanted_nodup.dedup]
  have hwanted := TagIndex.exists_wanted_job haccepts
  have hpos : 0 < total := by
    obtain ⟨job, hjob, -⟩ := hwanted
    exact htotal ▸ List.length_pos_of_mem hjob
  refine ⟨length_percents total, percents_ascending total, getLast?_percents hpos,
    r.index.jobsOf q, plan_of_missed haccepts hmiss, htotal, ?_, ?_⟩
  · intro fetchOf arrivals hperm
    constructor
    · intro setOf hsets
      rw [← htotal]
      exact told_of_brought hsets hperm hwanted cache q
    · rintro before failing after rfl hbefore hfailing
      have hlength : (before ++ failing :: after).length = total := by
        rw [hperm.length_eq, List.length_map, htotal]
      rw [← hlength]
      exact told_before_failure hbefore hfailing cache q
  · obtain ⟨order, hperm, -, reads, ended, hresolve⟩ := Resolver.resolve_eq_conclude haccepts hmiss
    rw [hresolve]
    exact ⟨order.map r.arrival, hperm.map r.arrival, rfl⟩

/-- Three fetches, of which the unwanted one is the first to arrive and one is for a tag without
slots: nothing is found, and if that one crashes instead, no more than the first is told. -/
theorem progress_in_every_order_nothing_found :
    let index : TagIndex := .ofEntries [⟨['a'], 0, 2⟩, ⟨['b'], 2, 2⟩, ⟨['c'], 2, 3⟩]
    let r : Resolver := { index, positions := MemorySource.source { content := [] }, limit := 0 }
    let q : Query := .ofTags [['a'], ['b'], ['a']] [['c']]
    let a : Arrival := ⟨.wanted, .positions (.ofList [0, 5])⟩
    let b : Arrival := ⟨.wanted, .positions .empty⟩
    let c : Arrival := ⟨.unwanted, .positions (.ofList [5])⟩
    q.Made ∧ r.index.Accepts q ∧ AnswerCache.get? none q.key = none ∧
      (conclude none q [c, b, a]).outcome = .error .noMatches ∧
      (conclude none q [c, b, a]).progress =
        [.searching 33, .searching 66, .searching 100, .complete 0] ∧
      (conclude none q [c, ⟨.wanted, .crashed⟩, a]).progress = [.searching 33] := by
  intro index r q a b c
  have hmade : q.Made := .ofTags _ _
  have haccepts : r.index.Accepts q := by decide
  obtain ⟨-, -, -, jobs, hplan, -, hevery, -⟩ :=
    progress_in_every_order r none q hmade haccepts rfl
  obtain rfl : [⟨.wanted, ⟨['a'], 0, 2⟩⟩, ⟨.wanted, ⟨['b'], 2, 2⟩⟩,
      ⟨.unwanted, ⟨['c'], 2, 3⟩⟩] = jobs := Plan.fetch.inj hplan
  let setOf : Job → PositionSet := fun job =>
    if job.role = .unwanted then .ofList [5]
    else if job.entry.isEmpty then .empty
    else .ofList [0, 5]
  obtain ⟨hfound, -⟩ := hevery (fun job => .positions (setOf job)) [c, b, a] (by decide)
  obtain ⟨offsets, hcombines, houtcome, hprogress⟩ := hfound setOf fun _ _ => rfl
  have hnone : offsets = [] := by
    apply List.eq_nil_iff_forall_not_mem.mpr
    intro x hx
    have hempty := ((hcombines.mem_iff x).mp hx).1 ⟨.wanted, ⟨['b'], 2, 2⟩⟩ (by decide) rfl
    exact PositionSet.not_mem_empty x hempty
  subst hnone
  have hpercents : percents (q.wanted.dedup.length + q.unwanted.dedup.length) = [33, 66, 100] := by
    decide
  rw [hpercents] at hprogress
  obtain ⟨-, hcut⟩ := hevery
    (fun job => if job.entry.isEmpty then .crashed else .positions (setOf job))
    [c, ⟨.wanted, .crashed⟩, a] (by decide)
  have htold := hcut [c] ⟨.wanted, .crashed⟩ [a] rfl (by simp [Arrival.Succeeded, c])
    (by simp [Arrival.Succeeded])
  rw [hpercents] at htold
  exact ⟨hmade, haccepts, rfl, houtcome, hprogress, htold⟩

end TagPrompt
