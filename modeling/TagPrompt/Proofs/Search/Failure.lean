import TagPrompt.Proofs.Search.Selection

/-! Searches that fail. Arrivals are taken in one after another, and the first one without positions
ends the search with its error, whatever has arrived before it. Nothing of what has arrived is kept:
the cache stays as it was, so every later search goes as if the failed one had not been made. -/

namespace TagPrompt

/-- The error that a fetch without positions gives to its search. -/
def Fetched.failure? : Fetched → Option SearchError
  | .positions _ => none
  | .failed error => some (.fetch error)
  | .crashed => some .crashed

/-- An arrival before which all arrivals have positions. -/
def FailsFirst (failing : Arrival) (arrivals : List Arrival) : Prop :=
  ∃ before after, arrivals = before ++ failing :: after ∧ ∀ arrival ∈ before, arrival.Succeeded

/-- A search has failed with an error, which is not that nothing matches, and has left no trace in
the cache. -/
structure Resolution.FailsWith (resolution : Resolution) (cache : AnswerCache)
    (error : SearchError) : Prop where
  outcome : resolution.outcome = .error error
  not_noMatches : error ≠ .noMatches
  cache_eq : resolution.cache = cache
  later : ∀ (r : Resolver) (q : Query), r.resolve resolution.cache q = r.resolve cache q

variable {arrivals before after : List Arrival} {arrival failing : Arrival} {fetched : Fetched}
  {error : SearchError}

/-! ### The first failure -/

theorem failure?_eq_none_iff : arrival.fetched.failure? = none ↔ arrival.Succeeded := by
  obtain ⟨role, fetched⟩ := arrival
  cases fetched with
  | positions set => exact ⟨fun _ => ⟨set, rfl⟩, fun _ => rfl⟩
  | failed error => exact ⟨nofun, fun ⟨_, h⟩ => by cases h⟩
  | crashed => exact ⟨nofun, fun ⟨_, h⟩ => by cases h⟩

/-- The error is that of a read, or a crash. -/
theorem eq_of_failure? (h : fetched.failure? = some error) :
    (∃ fault, error = .fetch fault) ∨ error = .crashed := by
  cases fetched with
  | positions set => cases h
  | failed fault => exact .inl ⟨fault, (Option.some.inj h).symm⟩
  | crashed => exact .inr (Option.some.inj h).symm

theorem ne_noMatches_of_failure? (h : fetched.failure? = some error) : error ≠ .noMatches := by
  rcases eq_of_failure? h with ⟨fault, rfl⟩ | rfl
  · nofun
  · nofun

theorem exists_failsFirst (h : ∃ arrival ∈ arrivals, ¬arrival.Succeeded) :
    ∃ failing error, FailsFirst failing arrivals ∧ failing.fetched.failure? = some error := by
  induction arrivals with
  | nil =>
      obtain ⟨arrival, hmem, -⟩ := h
      exact absurd hmem List.not_mem_nil
  | cons first rest ih =>
      by_cases hfirst : first.Succeeded
      · have hrest : ∃ arrival ∈ rest, ¬arrival.Succeeded := by
          obtain ⟨arrival, hmem, hfailed⟩ := h
          rcases List.mem_cons.mp hmem with rfl | hmem
          · exact absurd hfirst hfailed
          · exact ⟨arrival, hmem, hfailed⟩
        obtain ⟨failing, error, ⟨before, after, rfl, hbefore⟩, herror⟩ := ih hrest
        exact ⟨failing, error,
          ⟨first :: before, after, rfl, List.forall_mem_cons.mpr ⟨hfirst, hbefore⟩⟩, herror⟩
      · obtain ⟨error, herror⟩ := Option.ne_none_iff_exists'.mp (mt failure?_eq_none_iff.mp hfirst)
        exact ⟨first, error, ⟨[], rest, rfl, fun _ h => absurd h List.not_mem_nil⟩, herror⟩

theorem gather_cons_of_failed (herror : failing.fetched.failure? = some error) (total : Nat)
    (g : Gathered) :
    gather total g (failing :: after) = ([], .error error) := by
  obtain ⟨role, fetched⟩ := failing
  cases fetched with
  | positions set => cases herror
  | failed fault =>
      obtain rfl := Option.some.inj herror
      rfl
  | crashed =>
      obtain rfl := Option.some.inj herror
      rfl

/-- What has been gathered before the first failure is lost, but it has been told. -/
theorem conclude_eq_of_failed (hbefore : ∀ arrival ∈ before, arrival.Succeeded)
    (herror : failing.fetched.failure? = some error) (cache : AnswerCache) (q : Query) :
    conclude cache q (before ++ failing :: after) =
      { outcome := .error error
        cache
        progress := toldFrom (before ++ failing :: after).length 1 before.length } := by
  rw [conclude, gather_append hbefore, gather_cons_of_failed herror, List.append_nil]

theorem conclude_of_failed (hfirst : FailsFirst failing arrivals)
    (herror : failing.fetched.failure? = some error) (cache : AnswerCache) (q : Query) :
    (conclude cache q arrivals).FailsWith cache error := by
  obtain ⟨before, after, rfl, hbefore⟩ := hfirst
  rw [conclude_eq_of_failed hbefore herror]
  exact ⟨rfl, ne_noMatches_of_failure? herror, rfl, fun _ _ => rfl⟩

/-! ### Reads that fail -/

namespace Resolver

/-- Reading the slots of an entry takes too long, or does not end with all their bytes. -/
def ReadFails (r : Resolver) (entry : IndexEntry) : Prop :=
  entry.isEmpty = false ∧
    (r.limit < (r.positions.read entry.byteRange).took ∨
      ∀ bytes, (r.positions.read entry.byteRange).reading = .bytes bytes →
        bytes.length ≠ entry.byteCount.toNat)

variable {r : Resolver} {q : Query} {cache : AnswerCache}

theorem failure?_fetchedOfReading {entry : IndexEntry} {reading : Reading} :
    (fetchedOfReading entry reading).failure? ≠ none ↔
      ∀ bytes, reading = .bytes bytes → bytes.length ≠ entry.byteCount.toNat := by
  cases reading with
  | bytes content =>
      simp only [fetchedOfReading, fetchedOfBytes, Reading.bytes.injEq, forall_eq']
      split_ifs with hlength
      · exact ⟨fun h => absurd rfl h, fun h => absurd hlength h⟩
      · exact ⟨fun _ => hlength, fun _ => nofun⟩
  | failed fault => exact ⟨fun _ => nofun, fun _ => nofun⟩
  | crashed => exact ⟨fun _ => nofun, fun _ => nofun⟩

/-- A fetch fails exactly when its read does; a tag without slots needs none. -/
theorem readFails_iff (r : Resolver) (job : Job) :
    r.ReadFails job.entry ↔ ¬(r.arrival job).Succeeded := by
  rw [← failure?_eq_none_iff, arrival_eq, fetchPositions, readFor?, ReadFails]
  cases hempty : job.entry.isEmpty with
  | true => simp [Fetched.failure?]
  | false =>
      rw [if_neg Bool.false_ne_true]
      simp only [true_and, ByteSource.readWithin]
      split_ifs with hlate
      · simp [hlate, fetchedOfReading, Fetched.failure?]
      · rw [or_iff_right hlate]
        exact failure?_fetchedOfReading.symm

/-- A search with a failing read ends with the error of a fetch that no failing one comes before. -/
theorem exists_first_of_readFails (haccepts : r.index.Accepts q) (hmiss : cache.get? q.key = none)
    (hfails : ∃ job ∈ r.index.jobsOf q, r.ReadFails job.entry) :
    ∃ first ∈ r.index.jobsOf q, ∃ error, (r.arrival first).fetched.failure? = some error ∧
      (∀ job ∈ r.index.jobsOf q, (r.run job).time < (r.run first).time →
        ¬r.ReadFails job.entry) ∧
      (r.resolve cache q).FailsWith cache error := by
  obtain ⟨order, hperm, hsorted, houtcome, hcache⟩ := resolve_in_order haccepts hmiss
  have hfailed : ∃ arrival ∈ order.map r.arrival, ¬arrival.Succeeded := by
    obtain ⟨job, hjob, hread⟩ := hfails
    exact ⟨r.arrival job, List.mem_map_of_mem (hperm.mem_iff.mpr hjob),
      (r.readFails_iff job).mp hread⟩
  obtain ⟨failing, error, hfirst, herror⟩ := exists_failsFirst hfailed
  have hconclude := conclude_of_failed hfirst herror cache q
  -- the first failing arrival is that of a job, and all jobs in front of it have succeeded
  obtain ⟨before, after, hsplit, hbefore⟩ := hfirst
  obtain ⟨front, rest, rfl, hfront, hrest⟩ := List.map_eq_append_iff.mp hsplit
  obtain ⟨first, back, rfl, rfl, -⟩ := List.map_eq_cons_iff.mp hrest
  refine ⟨first, hperm.mem_iff.mp (by simp), error, herror, fun job hjob hsooner => ?_, ?_⟩
  · rw [readFails_iff, not_not]
    rcases List.mem_append.mp (hperm.mem_iff.mpr hjob) with hin | hin
    · exact hbefore _ (hfront ▸ List.mem_map_of_mem hin)
    · -- a job at or behind the first failing one is not sooner
      have hlater := List.pairwise_cons.mp (List.pairwise_append.mp hsorted).2.1
      rcases List.mem_cons.mp hin with rfl | hin
      · exact absurd hsooner (Nat.lt_irrefl _)
      · exact absurd hsooner (Nat.not_lt.mpr (hlater.1 job hin))
  · exact ⟨houtcome.trans hconclude.outcome, hconclude.not_noMatches,
      hcache.trans hconclude.cache_eq, fun r' q' => by rw [hcache, hconclude.cache_eq]⟩

end Resolver

/-- **Failed searches leave no trace.** Where a search needs fetches and one of them fails, the
search ends with the error of the first that fails, in whatever order they arrive and whatever else
they bring. The cache is what it was, so everything afterwards goes as without the search. Over a
source this is so whenever one of the reads fails, takes too long, crashes or falls short. -/
theorem failed_search_leaves_no_trace (r : Resolver) (cache : AnswerCache) (q : Query)
    (haccepts : r.index.Accepts q) (hmiss : cache.get? q.key = none) :
    plan r.index cache q = .fetch (r.index.jobsOf q) ∧
      (∀ outcomeOf : Job → Fetched,
        (∃ job ∈ r.index.jobsOf q, (outcomeOf job).failure? ≠ none) →
        ∀ arrivals, arrivals.Perm
            ((r.index.jobsOf q).map fun job => ⟨job.role, outcomeOf job⟩) →
          ∃ failing error, FailsFirst failing arrivals ∧
            failing.fetched.failure? = some error ∧
            (conclude cache q arrivals).FailsWith cache error) ∧
      ((∃ job ∈ r.index.jobsOf q, r.ReadFails job.entry) →
        ∃ first ∈ r.index.jobsOf q, ∃ error, (r.arrival first).fetched.failure? = some error ∧
          (∀ job ∈ r.index.jobsOf q, (r.run job).time < (r.run first).time →
            ¬r.ReadFails job.entry) ∧
          (r.resolve cache q).FailsWith cache error) := by
  refine ⟨plan_of_missed haccepts hmiss, fun outcomeOf hfails arrivals hperm => ?_,
    Resolver.exists_first_of_readFails haccepts hmiss⟩
  have hfailed : ∃ arrival ∈ arrivals, ¬arrival.Succeeded := by
    obtain ⟨job, hjob, hfailure⟩ := hfails
    have hmem : (⟨job.role, outcomeOf job⟩ : Arrival) ∈ arrivals :=
      hperm.mem_iff.mpr (List.mem_map.mpr ⟨job, hjob, rfl⟩)
    exact ⟨_, hmem, mt failure?_eq_none_iff.mpr hfailure⟩
  obtain ⟨failing, error, hfirst, herror⟩ := exists_failsFirst hfailed
  exact ⟨failing, error, hfirst, herror, conclude_of_failed hfirst herror cache q⟩

/-- A table that ends inside the slots of an unwanted tag, with an answer in the cache. -/
theorem failed_search_leaves_no_trace_short_table :
    let r : Resolver :=
      { index := .ofEntries [⟨['a'], 0, 1⟩, ⟨['b'], 1, 3⟩]
        positions := MemorySource.source { content := [0, 0, 0, 7, 0, 0] }
        limit := 0 }
    let cache : AnswerCache := some ⟨['a', '|'], [7]⟩
    let q : Query := ⟨[['a']], [['b']]⟩
    r.index.Accepts q ∧ cache.get? q.key = none ∧
      (∃ job ∈ r.index.jobsOf q, r.ReadFails job.entry) ∧
      ∃ error, (r.resolve cache q).FailsWith cache error := by
  intro r cache q
  have haccepts : r.index.Accepts q := by decide
  have hmiss : cache.get? q.key = none := by decide +kernel
  have hfails : ∃ job ∈ r.index.jobsOf q, r.ReadFails job.entry :=
    ⟨⟨.unwanted, ⟨['b'], 1, 3⟩⟩, by decide, by decide, Or.inr fun bytes hbytes => by
      cases hbytes
      decide⟩
  obtain ⟨-, -, hsource⟩ := failed_search_leaves_no_trace r cache q haccepts hmiss
  obtain ⟨first, -, error, -, -, hfailed⟩ := hsource hfails
  exact ⟨haccepts, hmiss, hfails, error, hfailed⟩

end TagPrompt
