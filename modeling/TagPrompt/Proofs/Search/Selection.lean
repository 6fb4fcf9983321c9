import TagPrompt.Proofs.Search.QueryTags
import TagPrompt.Proofs.Search.SetAlgebra
import TagPrompt.Source.Memory

/-! The offsets that a query selects. Where the positions of all tags are found, the outcome of a
search is the ascending list of the offsets that every wanted tag has and no unwanted tag has,
whatever the fetches arrive in and however often and in which order the query names its tags. -/

namespace TagPrompt

/-- The ascending list of the offsets that the sets of a query select. -/
structure Query.Selects (q : Query) (sets : Text → PositionSet) (offsets : List Offset) : Prop where
  ascending : offsets.Pairwise (· < ·)
  mem_iff : ∀ x, x ∈ offsets ↔ (∀ tag ∈ q.wanted, x ∈ sets tag) ∧ ∀ tag ∈ q.unwanted, x ∉ sets tag

namespace Query

variable {q q' : Query} {sets : Text → PositionSet} {offsets offsets' : List Offset}

/-- A query selects one list, and so does every query of the same tags. -/
theorem Selects.unique (h : q.Selects sets offsets) (h' : q'.Selects sets offsets')
    (hsame : q.SameTags q') : offsets = offsets' := by
  have hset : (⟨offsets, h.ascending⟩ : PositionSet) = ⟨offsets', h'.ascending⟩ := by
    refine PositionSet.ext_mem fun x => ?_
    rw [PositionSet.mem_def, PositionSet.mem_def, h.mem_iff, h'.mem_iff]
    simp only [hsame.wanted, hsame.unwanted]
  exact congrArg PositionSet.values hset

theorem Selects.values_eq (h : q.Selects sets offsets) {set : PositionSet}
    (hmem : ∀ x, x ∈ set ↔ (∀ tag ∈ q.wanted, x ∈ sets tag) ∧ ∀ tag ∈ q.unwanted, x ∉ sets tag) :
    set.values = offsets :=
  Selects.unique ⟨set.ascending, hmem⟩ h ⟨fun _ => Iff.rfl, fun _ => Iff.rfl⟩

theorem Selects.of_sameTags (h : q.Selects sets offsets) (hsame : q.SameTags q') :
    q'.Selects sets offsets where
  ascending := h.ascending
  mem_iff x := by
    rw [h.mem_iff]
    simp only [hsame.wanted, hsame.unwanted]

/-! ### Arrivals of a query -/

/-- The arrivals that bring the sets of a query, in the order of its tags. -/
def arrivals (q : Query) (sets : Text → PositionSet) : List Arrival :=
  (q.wanted.map fun tag => ⟨.wanted, .positions (sets tag)⟩) ++
    q.unwanted.map fun tag => ⟨.unwanted, .positions (sets tag)⟩

theorem setsFor_map (role other : Role) (tags : List Text) :
    setsFor role (tags.map fun tag => ⟨other, .positions (sets tag)⟩) =
      if other = role then tags.map sets else [] := by
  rw [setsFor, List.filterMap_map]
  split_ifs with hrole
  · rw [← List.filterMap_eq_map]
    congr 1
    funext tag
    simp only [Function.comp_apply, Arrival.setFor?, if_pos hrole]
  · refine List.filterMap_eq_nil_iff.mpr fun tag _ => ?_
    simp only [Function.comp_apply, Arrival.setFor?, if_neg hrole]

theorem setsFor_append (role : Role) (arrivals arrivals' : List Arrival) :
    setsFor role (arrivals ++ arrivals') = setsFor role arrivals ++ setsFor role arrivals' :=
  List.filterMap_append

theorem setsFor_arrivals (q : Query) (sets : Text → PositionSet) :
    setsFor .wanted (q.arrivals sets) = q.wanted.map sets ∧
      setsFor .unwanted (q.arrivals sets) = q.unwanted.map sets := by
  rw [arrivals]
  simp only [setsFor_append, setsFor_map, reduceCtorEq, if_true, if_false, List.append_nil,
    List.nil_append, and_self]

variable {arrived : List Arrival}

theorem succeeded_of_perm (hperm : arrived.Perm (q.arrivals sets)) :
    ∀ arrival ∈ arrived, arrival.Succeeded := by
  intro arrival harrival
  rw [hperm.mem_iff, arrivals, List.mem_append, List.mem_map, List.mem_map] at harrival
  rcases harrival with ⟨tag, -, rfl⟩ | ⟨tag, -, rfl⟩ <;> exact ⟨sets tag, rfl⟩

/-- Whatever the order of the arrivals, the answer is the selection of the query. -/
theorem selects_answerOf (hwanted : q.wanted ≠ []) (hperm : arrived.Perm (q.arrivals sets)) :
    q.Selects sets (answerOf arrived) := by
  obtain ⟨hin, hout⟩ := setsFor_arrivals q sets
  have hinPerm : (setsFor .wanted arrived).Perm (q.wanted.map sets) := hin ▸ hperm.filterMap _
  have houtPerm : (setsFor .unwanted arrived).Perm (q.unwanted.map sets) :=
    hout ▸ hperm.filterMap _
  have hsome : setsFor .wanted arrived ≠ [] := by
    intro hnone
    rw [hnone] at hinPerm
    exact hwanted (List.map_eq_nil_iff.mp hinPerm.nil_eq.symm)
  refine ⟨answerOf_ascending arrived, fun x => ?_⟩
  rw [mem_answerOf hsome]
  simp only [hinPerm.mem_iff, houtPerm.mem_iff, List.forall_mem_map]

theorem conclude_of_perm (hwanted : q.wanted ≠ []) (hperm : arrived.Perm (q.arrivals sets))
    (hselects : q.Selects sets offsets) (cache : AnswerCache) :
    (conclude cache q arrived).outcome = nonEmpty offsets ∧
      (conclude cache q arrived).cache = some ⟨q.key, offsets⟩ := by
  have hanswer : answerOf arrived = offsets :=
    (selects_answerOf hwanted hperm).unique hselects (.refl q)
  rw [← hanswer]
  exact conclude_of_succeeded (succeeded_of_perm hperm) cache q

end Query

namespace TagIndex

variable {index : TagIndex} {q : Query} {sets : Text → PositionSet}

theorem map_jobsFor {arrivalOf : Job → Arrival} {role : Role} {tags : List Text}
    (h : ∀ tag ∈ tags, ∃ entry, index.get? tag = some entry ∧
      arrivalOf ⟨role, entry⟩ = ⟨role, .positions (sets tag)⟩) :
    (index.jobsFor role tags).map arrivalOf = tags.map fun tag => ⟨role, .positions (sets tag)⟩ := by
  induction tags with
  | nil => rfl
  | cons tag tags ih =>
      obtain ⟨⟨entry, hentry, harrival⟩, hrest⟩ := List.forall_mem_cons.mp h
      rw [List.map_cons, ← ih hrest, jobsFor, List.filterMap_cons, hentry, Option.map_some,
        List.map_cons, harrival]
      rfl

theorem map_jobsOf {arrivalOf : Job → Arrival}
    (h : ∀ tag ∈ q.wanted ++ q.unwanted, ∃ entry, index.get? tag = some entry ∧
      ∀ role, arrivalOf ⟨role, entry⟩ = ⟨role, .positions (sets tag)⟩) :
    (index.jobsOf q).map arrivalOf = q.arrivals sets := by
  obtain ⟨hwanted, hunwanted⟩ := List.forall_mem_append.mp h
  have hin := map_jobsFor fun tag htag =>
    (hwanted tag htag).imp fun _ hentry => ⟨hentry.1, hentry.2 .wanted⟩
  have hout := map_jobsFor fun tag htag =>
    (hunwanted tag htag).imp fun _ hentry => ⟨hentry.1, hentry.2 .unwanted⟩
  rw [jobsOf, List.map_append, hin, hout]
  rfl

end TagIndex

namespace Resolver

def arrival (r : Resolver) (job : Job) : Arrival := (r.run job).arrival

/-- The positions of a tag are found: it has an entry, and fetching gives the set. -/
def Finds (r : Resolver) (tag : Text) (set : PositionSet) : Prop :=
  ∃ entry, r.index.get? tag = some entry ∧
    (fetchPositions r.positions r.limit entry).1 = .positions set

variable {r : Resolver} {q : Query} {sets : Text → PositionSet}

theorem arrival_eq (r : Resolver) (job : Job) :
    r.arrival job = ⟨job.role, (fetchPositions r.positions r.limit job.entry).1⟩ := rfl

theorem knows_of_finds (h : ∀ tag ∈ q.wanted ++ q.unwanted, r.Finds tag (sets tag)) :
    r.index.Knows q := by
  intro tag htag
  obtain ⟨entry, hentry, -⟩ := h tag htag
  exact ⟨entry, hentry⟩

theorem map_arrival_jobsOf (h : ∀ tag ∈ q.wanted ++ q.unwanted, r.Finds tag (sets tag)) :
    (r.index.jobsOf q).map r.arrival = q.arrivals sets := by
  refine TagIndex.map_jobsOf fun tag htag => ?_
  obtain ⟨entry, hentry, hfetch⟩ := h tag htag
  exact ⟨entry, hentry, fun role => by rw [arrival_eq, hfetch]⟩

/-- A search that fetches is concluded from its fetches in the order of their times. -/
theorem resolve_eq_conclude (h : r.index.Accepts q) {cache : AnswerCache}
    (hcache : cache.get? q.key = none) :
    ∃ order : List Job, order.Perm (r.index.jobsOf q) ∧
      order.Pairwise (fun job later => (r.run job).time ≤ (r.run later).time) ∧
      ∃ reads ended, r.resolve cache q =
        { conclude cache q (order.map r.arrival) with reads, ended } := by
  let order := (r.index.jobsOf q).mergeSort fun job later =>
    decide ((r.run job).time ≤ (r.run later).time)
  have horder : (((r.index.jobsOf q).map r.run).mergeSort fun s t =>
      decide (s.time ≤ t.time)).map TimedArrival.arrival = order.map r.arrival := by
    have hsorted : order.map r.run =
        ((r.index.jobsOf q).map r.run).mergeSort fun s t => decide (s.time ≤ t.time) :=
      List.map_mergeSort fun _ _ _ _ => rfl
    rw [← hsorted, List.map_map]
    rfl
  refine ⟨order, List.mergeSort_perm _ _, ?_, ?_⟩
  · have htrans : ∀ a b c : Job, decide ((r.run a).time ≤ (r.run b).time) = true →
        decide ((r.run b).time ≤ (r.run c).time) = true →
          decide ((r.run a).time ≤ (r.run c).time) = true := fun _ _ _ hab hbc =>
      decide_eq_true (Nat.le_trans (of_decide_eq_true hab) (of_decide_eq_true hbc))
    have htotal : ∀ a b : Job, (decide ((r.run a).time ≤ (r.run b).time) ||
        decide ((r.run b).time ≤ (r.run a).time)) = true := fun a b => by
      simpa using Nat.le_total (r.run a).time (r.run b).time
    exact (List.pairwise_mergeSort htrans htotal _).imp of_decide_eq_true
  · rw [resolve, plan_of_missed h hcache, ← horder]
    exact ⟨_, _, rfl⟩

theorem resolve_in_order (h : r.index.Accepts q) {cache : AnswerCache}
    (hcache : cache.get? q.key = none) :
    ∃ order : List Job, order.Perm (r.index.jobsOf q) ∧
      order.Pairwise (fun job later => (r.run job).time ≤ (r.run later).time) ∧
      (r.resolve cache q).outcome = (conclude cache q (order.map r.arrival)).outcome ∧
      (r.resolve cache q).cache = (conclude cache q (order.map r.arrival)).cache := by
  obtain ⟨order, hperm, hsorted, reads, ended, hresolve⟩ := resolve_eq_conclude h hcache
  rw [hresolve]
  exact ⟨order, hperm, hsorted, rfl, rfl⟩

theorem resolve_of_missed (h : r.index.Accepts q) {cache : AnswerCache}
    (hcache : cache.get? q.key = none) :
    ∃ arrivals, arrivals.Perm ((r.index.jobsOf q).map r.arrival) ∧
      (r.resolve cache q).outcome = (conclude cache q arrivals).outcome ∧
      (r.resolve cache q).cache = (conclude cache q arrivals).cache := by
  obtain ⟨order, hperm, -, hresolve⟩ := resolve_in_order h hcache
  exact ⟨order.map r.arrival, hperm.map r.arrival, hresolve⟩

variable {arrivals : List Arrival} {offsets : List Offset}

theorem conclude_of_selects (hwanted : q.wanted ≠ [])
    (h : ∀ tag ∈ q.wanted ++ q.unwanted, r.Finds tag (sets tag))
    (hperm : arrivals.Perm ((r.index.jobsOf q).map r.arrival)) (hselects : q.Selects sets offsets)
    (cache : AnswerCache) :
    (conclude cache q arrivals).outcome = nonEmpty offsets ∧
      (conclude cache q arrivals).cache = some ⟨q.key, offsets⟩ := by
  rw [map_arrival_jobsOf h] at hperm
  exact Query.conclude_of_perm hwanted hperm hselects cache

/-- A search that fetches has the outcome of the selection, and remembers it. -/
theorem resolve_of_selects (hwanted : q.wanted ≠ [])
    (h : ∀ tag ∈ q.wanted ++ q.unwanted, r.Finds tag (sets tag))
    (hselects : q.Selects sets offsets) {cache : AnswerCache} (hcache : cache.get? q.key = none) :
    (r.resolve cache q).outcome = nonEmpty offsets ∧
      (r.resolve cache q).cache = some ⟨q.key, offsets⟩ := by
  obtain ⟨arrivals, hperm, houtcome, hstored⟩ :=
    resolve_of_missed ⟨hwanted, knows_of_finds h⟩ hcache
  rw [houtcome, hstored]
  exact conclude_of_selects hwanted h hperm hselects cache

theorem exists_selects (hwanted : q.wanted ≠ [])
    (h : ∀ tag ∈ q.wanted ++ q.unwanted, r.Finds tag (sets tag)) :
    ∃ offsets, q.Selects sets offsets := by
  have hperm := List.Perm.of_eq (map_arrival_jobsOf h)
  exact ⟨_, Query.selects_answerOf hwanted hperm⟩

end Resolver

/-! ### Every order -/

section Orders

variable {q q' : Query} {sets : Text → PositionSet} {offsets : List Offset} {first : PositionSet}
  {rest : List PositionSet} {unwanted : PositionSet}

/-- The sets of the wanted tags give the selection, in whatever order they are intersected. -/
theorem Query.Selects.values_foldl_inter (h : q.Selects sets offsets)
    (hperm : (first :: rest).Perm (q.wanted.map sets))
    (hunwanted : ∀ x, x ∈ unwanted ↔ ∃ tag ∈ q.unwanted, x ∈ sets tag) :
    ((rest.foldl PositionSet.inter first).diff unwanted).values = offsets := by
  refine h.values_eq fun x => ?_
  rw [PositionSet.mem_diff, PositionSet.mem_foldl_inter, hunwanted]
  simp only [hperm.mem_iff, List.forall_mem_map, not_exists, not_and]

theorem Query.Selects.values_combine (h : q.Selects sets offsets)
    (hperm : (first :: rest).Perm (q.wanted.map sets))
    (hunwanted : ∀ x, x ∈ unwanted ↔ ∃ tag ∈ q.unwanted, x ∈ sets tag) :
    (combine (first :: rest) unwanted).values = offsets := by
  refine h.values_eq fun x => ?_
  rw [mem_combine (List.cons_ne_nil first rest), hunwanted]
  simp only [hperm.mem_iff, List.forall_mem_map, not_exists, not_and]

end Orders

theorem nonEmpty_eq (offsets : List Offset) :
    nonEmpty offsets = if offsets = [] then .error .noMatches else .ok offsets := by
  cases offsets <;> rfl

/-- **Set algebra.** Where the positions of all tags of a query are found, there is one ascending
list of the offsets in the set of every wanted tag and of no unwanted tag, and it is the outcome of
every search that fetches: whatever order the fetches arrive in, whatever order the wanted sets are
intersected in, and however the query orders and repeats its tags. -/
theorem selection_in_every_order (r : Resolver) (q : Query) (sets : Text → PositionSet)
    (hwanted : q.wanted ≠ [])
    (hfinds : ∀ tag ∈ q.wanted ++ q.unwanted, r.Finds tag (sets tag)) :
    ∃ offsets, q.Selects sets offsets ∧
      (∀ cache, cache.get? q.key = none →
        ∃ jobs, plan r.index cache q = .fetch jobs ∧
          ∀ arrivals, arrivals.Perm (jobs.map r.arrival) →
            (conclude cache q arrivals).outcome =
              if offsets = [] then .error .noMatches else .ok offsets) ∧
      (∀ first rest, (first :: rest).Perm (q.wanted.map sets) → ∀ unwanted : PositionSet,
        (∀ x, x ∈ unwanted ↔ ∃ tag ∈ q.unwanted, x ∈ sets tag) →
          (combine (first :: rest) unwanted).values = offsets ∧
            ((rest.foldl PositionSet.inter first).diff unwanted).values = offsets) ∧
      ∀ q', q.SameTags q' → ∀ cache, cache.get? q'.key = none →
        (r.resolve cache q').outcome =
          if offsets = [] then .error .noMatches else .ok offsets := by
  obtain ⟨offsets, hselects⟩ := Resolver.exists_selects hwanted hfinds
  refine ⟨offsets, hselects, fun cache hcache => ?_, fun first rest hperm unwanted hunwanted => ?_,
    fun q' hsame cache hcache => ?_⟩
  · refine ⟨_, plan_of_missed ⟨hwanted, Resolver.knows_of_finds hfinds⟩ hcache,
      fun arrivals hperm => ?_⟩
    rw [(Resolver.conclude_of_selects hwanted hfinds hperm hselects cache).1, nonEmpty_eq]
  · exact ⟨hselects.values_combine hperm hunwanted, hselects.values_foldl_inter hperm hunwanted⟩
  · have hfinds' : ∀ tag ∈ q'.wanted ++ q'.unwanted, r.Finds tag (sets tag) :=
      fun tag htag => hfinds tag ((hsame.mem_append tag).mpr htag)
    rw [(Resolver.resolve_of_selects (hsame.wanted_ne_nil hwanted) hfinds'
      (hselects.of_sameTags hsame) hcache).1, nonEmpty_eq]

/-- Three tags, of which the third is unwanted. -/
theorem selection_in_every_order_three_tags :
    let r : Resolver :=
      { index := .ofEntries [⟨['a'], 0, 2⟩, ⟨['b'], 2, 5⟩, ⟨['c'], 5, 6⟩]
        positions := MemorySource.source { content := [0, 5, 0, 5, 9, 0].flatMap slotBytes }
        limit := 0 }
    let q : Query := ⟨[['b'], ['a']], [['c']]⟩
    let sets : Text → PositionSet := fun tag =>
      if tag = ['a'] then .ofList [0, 5] else if tag = ['b'] then .ofList [0, 5, 9] else .ofList [0]
    q.wanted ≠ [] ∧ (∀ tag ∈ q.wanted ++ q.unwanted, r.Finds tag (sets tag)) ∧
      ∃ offsets, q.Selects sets offsets ∧
        (r.resolve none q).outcome = if offsets = [] then .error .noMatches else .ok offsets := by
  intro r q sets
  have hfinds : ∀ tag ∈ q.wanted ++ q.unwanted, r.Finds tag (sets tag) := by
    intro tag htag
    simp only [q, List.cons_append, List.nil_append, List.mem_cons, List.not_mem_nil, or_false]
      at htag
    rcases htag with rfl | rfl | rfl
    · exact ⟨⟨['b'], 2, 5⟩, by decide, by decide⟩
    · exact ⟨⟨['a'], 0, 2⟩, by decide, by decide⟩
    · exact ⟨⟨['c'], 5, 6⟩, by decide, by decide⟩
  obtain ⟨offsets, hselects, -, -, hresolve⟩ :=
    selection_in_every_order r q sets (by decide) hfinds
  exact ⟨by decide, hfinds, offsets, hselects, hresolve q (.refl q) none rfl⟩

end TagPrompt
