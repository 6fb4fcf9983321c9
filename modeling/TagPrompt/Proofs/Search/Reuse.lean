import TagPrompt.Proofs.Search.Failure
import TagPrompt.Proofs.Search.PositionTable
import TagPrompt.Proofs.Search.QueryKey

/-! The cache over whole runs. Only a call that takes all its fetches in changes the cache, so after
any run it holds the answer of the last such call, whatever hits, refusals, failures and calls given
up came between. Naming tags in another order makes the same key, so a query that has just been
answered is answered again without a read. -/

namespace TagPrompt

/-! ### The key that is remembered -/

theorem AnswerCache.get?_eq_none_iff {cache : AnswerCache} {key : Text} :
    cache.get? key = none ↔ cache.key? ≠ some key := by
  cases cache with
  | none => exact iff_of_true rfl nofun
  | some cached => simp [get?, key?]

theorem AnswerCache.get?_self (key : Text) (offsets : List Offset) :
    get? (some ⟨key, offsets⟩) key = some offsets :=
  if_pos rfl

/-- The range of the slots of a tag, if it has any: four bytes for a slot. -/
def TagIndex.rangeOf? (index : TagIndex) (tag : Text) : Option ByteRange :=
  match index.get? tag with
  | some entry =>
      if entry.start = entry.stop then none
      else some ⟨4 * entry.start.toNat, 4 * entry.stop.toNat⟩
  | none => none

/-- The search has ended with offsets, or without any to be found. -/
def Resolution.Answered (resolution : Resolution) : Prop :=
  resolution.outcome = .error .noMatches ∨ ∃ offsets, resolution.outcome = .ok offsets

theorem Resolution.answered_of_eq_nonEmpty {resolution : Resolution} {offsets : List Offset}
    (h : resolution.outcome = nonEmpty offsets) : resolution.Answered := by
  rw [Answered, h, nonEmpty]
  split_ifs
  · exact .inl rfl
  · exact .inr ⟨offsets, rfl⟩

/-- A query that is put to a resolver, the source that its fetches meet, and the time after which it
is given up, if it is. -/
structure Ask where
  query : Query
  source : ByteSource
  patience : Option Millis := none

namespace Resolver

/-- The resolver with another source behind it. -/
def meeting (r : Resolver) (source : ByteSource) : Resolver := { r with positions := source }

variable {r : Resolver} {cache : AnswerCache} {q q' : Query} {offsets : List Offset}

/-! ### One call -/

theorem filterMap_readFor_jobsFor (index : TagIndex) (role : Role) (tags : List Text) :
    ((index.jobsFor role tags).filterMap fun job => readFor? job.entry) =
      tags.filterMap index.rangeOf? := by
  rw [TagIndex.jobsFor, List.filterMap_filterMap]
  apply List.filterMap_congr
  intro tag _
  rw [TagIndex.rangeOf?]
  cases index.get? tag with
  | none => rfl
  | some entry =>
      change readFor? entry = _
      simp only [readFor?, IndexEntry.isEmpty, beq_iff_eq]
      rfl

/-- A query that is not in the cache is read for tag by tag, in both lists. -/
theorem reads_of_missed (haccepts : r.index.Accepts q) (hmiss : cache.get? q.key = none) :
    (r.resolve cache q).reads = (q.wanted ++ q.unwanted).filterMap r.index.rangeOf? := by
  rw [resolve, plan_of_missed haccepts hmiss, List.filterMap_append,
    ← filterMap_readFor_jobsFor r.index .wanted, ← filterMap_readFor_jobsFor r.index .unwanted,
    ← List.filterMap_append]
  rfl

/-- A query whose reads all succeed is answered, and its answer is what the cache holds. -/
theorem resolve_of_reads (haccepts : r.index.Accepts q) (hmiss : cache.get? q.key = none)
    (hreads : ∀ job ∈ r.index.jobsOf q, ¬r.ReadFails job.entry) :
    ∃ offsets, (r.resolve cache q).outcome = nonEmpty offsets ∧
      (r.resolve cache q).cache = some ⟨q.key, offsets⟩ := by
  obtain ⟨arrivals, hperm, houtcome, hstored⟩ := resolve_of_missed haccepts hmiss
  have hall : ∀ arrival ∈ arrivals, arrival.Succeeded := by
    intro arrival hmem
    obtain ⟨job, hjob, rfl⟩ := List.mem_map.mp (hperm.mem_iff.mp hmem)
    exact not_not.mp (mt (r.readFails_iff job).mpr (hreads job hjob))
  rw [houtcome, hstored]
  exact ⟨answerOf arrivals, conclude_of_succeeded hall cache q⟩

theorem resolve_of_cached (haccepts : r.index.Accepts q) (hhit : cache.get? q.key = some offsets) :
    r.resolve cache q = { outcome := nonEmpty offsets, cache } :=
  resolve_of_settled (plan_of_cached haccepts hhit)

/-- A query that wants something is answered only if its tags are all known. -/
theorem accepts_of_answered (hwanted : q.wanted ≠ []) (h : (r.resolve cache q).Answered) :
    r.index.Accepts q := by
  refine ⟨hwanted, TagIndex.find?_misses_eq_none_iff.mp ?_⟩
  cases hmissing : (q.wanted ++ q.unwanted).find? r.index.misses with
  | none => rfl
  | some tag =>
      rw [Resolution.Answered, resolve_of_settled (plan_of_missing hwanted hmissing cache)] at h
      simp at h

/-- Where a query has been answered, its answer is in the cache. -/
theorem cached_of_answered (hwanted : q.wanted ≠ []) (h : (r.resolve cache q).Answered) :
    ∃ offsets, (r.resolve cache q).cache.get? q.key = some offsets ∧
      (r.resolve cache q).outcome = nonEmpty offsets := by
  have haccepts : r.index.Accepts q := accepts_of_answered hwanted h
  cases hcache : cache.get? q.key with
  | some offsets =>
      rw [resolve_of_cached haccepts hcache]
      exact ⟨offsets, hcache, rfl⟩
  | none =>
      by_cases hfails : ∃ job ∈ r.index.jobsOf q, r.ReadFails job.entry
      · -- a search one of whose reads fails is not answered
        obtain ⟨-, -, error, -, -, hfailed⟩ := exists_first_of_readFails haccepts hcache hfails
        rw [Resolution.Answered, hfailed.outcome] at h
        rcases h with h | ⟨offsets, h⟩
        · exact absurd (Except.error.inj h) hfailed.not_noMatches
        · cases h
      · push Not at hfails
        obtain ⟨offsets, houtcome, hstored⟩ := resolve_of_reads haccepts hcache hfails
        rw [hstored]
        exact ⟨offsets, AnswerCache.get?_self q.key offsets, houtcome⟩

/-- A query of the same tags as one just answered is answered alike, whatever source it meets:
nothing is read or told, and the cache stays. -/
theorem resolve_again (hwanted : q.wanted ≠ []) (hq : q.IsClean) (hq' : q'.IsClean)
    (hsame : q.SameTags q') (h : (r.resolve cache q).Answered) (source : ByteSource) :
    (r.meeting source).resolve (r.resolve cache q).cache q' =
      { outcome := (r.resolve cache q).outcome, cache := (r.resolve cache q).cache } := by
  obtain ⟨offsets, hhit, houtcome⟩ := cached_of_answered hwanted h
  have haccepts : r.index.Accepts q := accepts_of_answered hwanted h
  have haccepts' : r.index.Accepts q' := by
    refine ⟨hsame.wanted_ne_nil hwanted, ?_⟩
    intro tag htag
    exact haccepts.known tag ((hsame.mem_append tag).mpr htag)
  rw [hsame.key_eq hq hq'] at hhit
  rw [houtcome]
  exact resolve_of_cached haccepts' hhit

/-! ### Runs of calls -/

/-- The cache behind an ask. -/
def afterAsk (r : Resolver) (cache : AnswerCache) (ask : Ask) : AnswerCache :=
  match ask.patience with
  | none => ((r.meeting ask.source).resolve cache ask.query).cache
  | some time => ((r.meeting ask.source).abandon cache ask.query time).cache

/-- The cache behind a run of asks on a new resolver. -/
def afterRun (r : Resolver) (asks : List Ask) : AnswerCache := asks.foldl r.afterAsk none

/-- An ask needs fetches, which all succeed, and it is not given up before they have. -/
structure Completes (r : Resolver) (cache : AnswerCache) (ask : Ask) : Prop where
  accepts : r.index.Accepts ask.query
  missed : cache.key? ≠ some ask.query.key
  read : ∀ job ∈ r.index.jobsOf ask.query, ¬(r.meeting ask.source).ReadFails job.entry
  kept : ∀ time, ask.patience = some time →
    ((r.meeting ask.source).abandon cache ask.query time).dropped = false

/-- The ask at a position of a run completes over the cache that it finds. -/
def CompletesAt (r : Resolver) (asks : List Ask) (i : Nat) : Prop :=
  ∃ ask, asks[i]? = some ask ∧ r.Completes (r.afterRun (asks.take i)) ask

/-- The last ask of a run that completes, where it stands, and the offsets that it found. -/
structure LastCompleted (r : Resolver) (asks : List Ask) (i : Nat) (ask : Ask)
    (offsets : List Offset) : Prop where
  getElem? : asks[i]? = some ask
  completes : r.Completes (r.afterRun (asks.take i)) ask
  outcome : ((r.meeting ask.source).resolve (r.afterRun (asks.take i)) ask.query).outcome =
    nonEmpty offsets
  last : ∀ j, i < j → ¬r.CompletesAt asks j

variable {ask next : Ask} {asks : List Ask} {i : Nat}

/-- A query that is given up leaves the cache; one that is not is answered as if it could not be. -/
theorem cache_abandon (r : Resolver) (cache : AnswerCache) (q : Query) (time : Millis) :
    (r.abandon cache q time).cache =
      if (r.abandon cache q time).dropped = true then cache else (r.resolve cache q).cache := by
  rw [abandon]
  cases hplan : plan r.index cache q with
  | settled outcome =>
      rw [resolve, hplan]
      rfl
  | fetch jobs =>
      by_cases hended : (r.resolve cache q).ended < time
      · simp only [if_pos hended, Bool.false_eq_true, if_false]
      · by_cases htime : time = 0
        · simp only [if_neg hended, if_pos htime, if_true]
        · simp only [if_neg hended, if_neg htime, if_true]

theorem afterAsk_of_completes (h : r.Completes cache ask) :
    ∃ offsets, ((r.meeting ask.source).resolve cache ask.query).outcome = nonEmpty offsets ∧
      r.afterAsk cache ask = some ⟨ask.query.key, offsets⟩ := by
  have hmiss : cache.get? ask.query.key = none := AnswerCache.get?_eq_none_iff.mpr h.missed
  obtain ⟨offsets, houtcome, hstored⟩ :=
    resolve_of_reads (r := r.meeting ask.source) h.accepts hmiss h.read
  refine ⟨offsets, houtcome, ?_⟩
  rw [afterAsk]
  cases hpatience : ask.patience with
  | none => exact hstored
  | some time =>
      simp only
      rw [cache_abandon, h.kept time hpatience, if_neg Bool.false_ne_true, hstored]

theorem cache_resolve_of_not_completed
    (h : ¬(r.index.Accepts q ∧ cache.key? ≠ some q.key ∧
      ∀ job ∈ r.index.jobsOf q, ¬r.ReadFails job.entry)) :
    (r.resolve cache q).cache = cache := by
  by_cases haccepts : r.index.Accepts q
  · cases hcache : cache.get? q.key with
    | some offsets => rw [resolve_of_cached haccepts hcache]
    | none =>
        have hfails : ∃ job ∈ r.index.jobsOf q, r.ReadFails job.entry := by
          by_contra hnone
          push Not at hnone
          exact h ⟨haccepts, AnswerCache.get?_eq_none_iff.mp hcache, hnone⟩
        obtain ⟨-, -, error, -, -, hfailed⟩ := exists_first_of_readFails haccepts hcache hfails
        exact hfailed.cache_eq
  · obtain ⟨outcome, hplan⟩ := plan_of_not_accepts haccepts
    rw [resolve_of_settled (hplan cache)]

theorem afterAsk_of_not_completes (h : ¬r.Completes cache ask) : r.afterAsk cache ask = cache := by
  rw [afterAsk]
  cases hpatience : ask.patience with
  | none =>
      apply cache_resolve_of_not_completed
      rintro ⟨haccepts, hmissed, hread⟩
      exact h ⟨haccepts, hmissed, hread, by simp [hpatience]⟩
  | some time =>
      simp only
      rw [cache_abandon]
      split_ifs with hdropped
      · rfl
      · apply cache_resolve_of_not_completed
        rintro ⟨haccepts, hmissed, hread⟩
        refine h ⟨haccepts, hmissed, hread, ?_⟩
        intro time' htime'
        obtain rfl := Option.some.inj (hpatience.symm.trans htime')
        exact Bool.eq_false_iff.mpr hdropped

theorem afterRun_concat (r : Resolver) (asks : List Ask) (next : Ask) :
    r.afterRun (asks ++ [next]) = r.afterAsk (r.afterRun asks) next := by
  rw [afterRun, List.foldl_concat]
  rfl

theorem lt_length_of_completesAt (h : r.CompletesAt asks i) : i < asks.length := by
  obtain ⟨ask, hask, -⟩ := h
  exact (List.getElem?_eq_some_iff.mp hask).1

/-- An ask behind a run changes nothing about those of the run. -/
theorem completesAt_concat_iff (hi : i < asks.length) :
    r.CompletesAt (asks ++ [next]) i ↔ r.CompletesAt asks i := by
  have htake : (asks ++ [next]).take i = asks.take i :=
    List.take_append_of_le_length (Nat.le_of_lt hi)
  rw [CompletesAt, CompletesAt, List.getElem?_append_left hi, htake]

theorem completesAt_length_iff :
    r.CompletesAt (asks ++ [next]) asks.length ↔ r.Completes (r.afterRun asks) next := by
  rw [CompletesAt, List.getElem?_concat_length, List.take_left]
  simp only [Option.some.injEq, exists_eq_left']

theorem not_completesAt_concat (hnext : ¬r.Completes (r.afterRun asks) next)
    (h : ¬r.CompletesAt asks i) : ¬r.CompletesAt (asks ++ [next]) i := by
  intro hcompletes
  have hi : i < (asks ++ [next]).length := lt_length_of_completesAt hcompletes
  rw [List.length_append, List.length_singleton, Nat.lt_succ_iff_lt_or_eq] at hi
  rcases hi with hi | rfl
  · exact h ((completesAt_concat_iff hi).mp hcompletes)
  · exact hnext (completesAt_length_iff.mp hcompletes)

/-- An ask that completes is the last one from then on. -/
theorem lastCompleted_concat (hnext : r.Completes (r.afterRun asks) next)
    (houtcome : ((r.meeting next.source).resolve (r.afterRun asks) next.query).outcome =
      nonEmpty offsets) :
    r.LastCompleted (asks ++ [next]) asks.length next offsets := by
  have htake : (asks ++ [next]).take asks.length = asks := List.take_left
  refine ⟨List.getElem?_concat_length, ?_, ?_, ?_⟩
  · rwa [htake]
  · rwa [htake]
  · intro j hj hcompletes
    have hlength : j < (asks ++ [next]).length := lt_length_of_completesAt hcompletes
    rw [List.length_append, List.length_singleton] at hlength
    omega

/-- An ask that does not complete leaves the last one that did. -/
theorem LastCompleted.concat (h : r.LastCompleted asks i ask offsets)
    (hnext : ¬r.Completes (r.afterRun asks) next) :
    r.LastCompleted (asks ++ [next]) i ask offsets := by
  have hi : i < asks.length := (List.getElem?_eq_some_iff.mp h.getElem?).1
  have htake : (asks ++ [next]).take i = asks.take i :=
    List.take_append_of_le_length (Nat.le_of_lt hi)
  refine ⟨(List.getElem?_append_left hi).trans h.getElem?, ?_, ?_, ?_⟩
  · rw [htake]
    exact h.completes
  · rw [htake]
    exact h.outcome
  · intro j hj
    exact not_completesAt_concat hnext (h.last j hj)

/-- After a run, the cache holds the answer of the last ask that completed, or nothing if none
has. -/
theorem afterRun_eq (r : Resolver) (asks : List Ask) :
    ((∀ i, ¬r.CompletesAt asks i) ∧ r.afterRun asks = none) ∨
      ∃ i ask offsets, r.LastCompleted asks i ask offsets ∧
        r.afterRun asks = some ⟨ask.query.key, offsets⟩ := by
  induction asks using List.reverseRecOn with
  | nil =>
      left
      refine ⟨?_, rfl⟩
      intro i hcompletes
      exact absurd (lt_length_of_completesAt hcompletes) (Nat.not_lt_zero i)
  | append_singleton asks next ih =>
      rw [afterRun_concat]
      by_cases hnext : r.Completes (r.afterRun asks) next
      · -- the last ask takes the place of whatever was held
        obtain ⟨offsets, houtcome, hstored⟩ := afterAsk_of_completes hnext
        right
        exact ⟨asks.length, next, offsets, lastCompleted_concat hnext houtcome, hstored⟩
      · -- it leaves the cache, and what was the last to complete still is
        rw [afterAsk_of_not_completes hnext]
        rcases ih with ⟨hnone, hempty⟩ | ⟨i, ask, offsets, hlast, hstored⟩
        · left
          exact ⟨fun i => not_completesAt_concat hnext (hnone i), hempty⟩
        · right
          exact ⟨i, ask, offsets, hlast.concat hnext, hstored⟩

end Resolver

/-- **The cache over whole runs.** After any run of asks on a new resolver, whatever sources they
meet and whether or not they are given up:
a query that wants something and has been answered is answered alike when it is asked again next,
with its tags in any order, any number of times and empty ones added, without a read, without a
word, and with the cache as it is;
the cache holds the key and the offsets of the last ask all of whose fetches have succeeded, or
nothing before there was one;
and an accepted query with another key whose fetches all succeed is read for once for each tag of
each of its lists that has slots, in the bytes of these slots, and is in the cache afterwards. -/
theorem cache_reuse_over_runs (r : Resolver) (asks : List Ask) :
    (∀ q q' : Query, q.Made → q'.Made → q.SameTags q' → q.wanted ≠ [] →
      ∀ source source' : ByteSource,
        let first := (r.meeting source).resolve (r.afterRun asks) q
        first.Answered →
          (r.meeting source').resolve first.cache q' =
            { outcome := first.outcome, cache := first.cache, progress := [], reads := [] }) ∧
    (((∀ i, ¬r.CompletesAt asks i) ∧ r.afterRun asks = none) ∨
      ∃ i ask offsets, r.LastCompleted asks i ask offsets ∧
        r.afterRun asks = some ⟨ask.query.key, offsets⟩) ∧
    ∀ (q : Query) (source : ByteSource), q.Made → r.index.Accepts q →
      (r.afterRun asks).key? ≠ some q.key →
      (∀ job ∈ r.index.jobsOf q, ¬(r.meeting source).ReadFails job.entry) →
        let resolution := (r.meeting source).resolve (r.afterRun asks) q
        q.wanted.Nodup ∧ q.unwanted.Nodup ∧
          resolution.reads = (q.wanted ++ q.unwanted).filterMap r.index.rangeOf? ∧
          ∃ offsets, resolution.outcome = nonEmpty offsets ∧
            resolution.cache = some ⟨q.key, offsets⟩ := by
  refine ⟨?_, Resolver.afterRun_eq r asks, ?_⟩
  · intro q q' hq hq' hsame hwanted source source' first hanswered
    exact Resolver.resolve_again hwanted hq.isClean hq'.isClean hsame hanswered source'
  · intro q source hmade haccepts hkey hreads
    have hclean : q.IsClean := hmade.isClean
    have hmiss : (r.afterRun asks).get? q.key = none := AnswerCache.get?_eq_none_iff.mpr hkey
    exact ⟨hclean.wanted_nodup, hclean.unwanted_nodup,
      Resolver.reads_of_missed (r := r.meeting source) haccepts hmiss,
      Resolver.resolve_of_reads (r := r.meeting source) haccepts hmiss hreads⟩

/-- A failed ask and one that is given up, then a query of four tags, one of them without slots,
and the same query in another order over a source that fails. -/
theorem cache_reuse_over_runs_other_order :
    let table := [0, 6, 0, 6, 6].flatMap slotBytes
    let serving := MemorySource.source { content := table }
    let failing := MemorySource.source { content := table, failing := true }
    let r : Resolver :=
      { index := .ofEntries [⟨['a'], 0, 2⟩, ⟨['b'], 2, 4⟩, ⟨['c'], 4, 5⟩, ⟨['d'], 5, 5⟩]
        positions := serving
        limit := 0 }
    let asks : List Ask := [⟨⟨[['a']], []⟩, failing, none⟩, ⟨⟨[['b']], []⟩, serving, some 0⟩]
    let q : Query := .ofTags [['a'], ['b']] [['c'], ['d']]
    let q' : Query := .ofTags [['b'], [], ['a'], ['b']] [['d'], ['c']]
    let first := (r.meeting serving).resolve (r.afterRun asks) q
    first.reads = [⟨0, 8⟩, ⟨8, 16⟩, ⟨16, 20⟩] ∧
      ∃ offsets, first.outcome = nonEmpty offsets ∧ first.cache = some ⟨q.key, offsets⟩ ∧
        (r.meeting failing).resolve first.cache q' =
          { outcome := nonEmpty offsets, cache := some ⟨q.key, offsets⟩ } := by
  intro table serving failing r asks q q' first
  obtain ⟨hreuse, -, hfetch⟩ := cache_reuse_over_runs r asks
  have hmade : q.Made := .ofTags _ _
  have hsame : q.SameTags q' := by
    apply Query.sameTags_ofTags
    · intro tag
      change tag ∈ [['a'], ['b']] ↔ tag ∈ [['b'], [], ['a'], ['b']] ∧ tag ≠ []
      grind
    · intro tag
      change tag ∈ [['c'], ['d']] ↔ tag ∈ [['d'], ['c']] ∧ tag ≠ []
      grind
  have hreads : ∀ job ∈ r.index.jobsOf q, ¬(r.meeting serving).ReadFails job.entry := by
    have hinside : ∀ job ∈ r.index.jobsOf q, job.entry.Inside table := by decide
    intro job hjob
    rw [Resolver.readFails_iff, not_not]
    exact ⟨_, fetchPositions_of_serves (MemorySource.serves rfl) (hinside job hjob)⟩
  obtain ⟨-, -, hranges, offsets, houtcome, hstored⟩ :=
    hfetch q serving hmade (by decide) (by decide +kernel) hreads
  refine ⟨hranges, offsets, houtcome, hstored, ?_⟩
  rw [← houtcome, ← hstored]
  exact hreuse q q' hmade (.ofTags _ _) hsame (by decide) serving failing
    (Resolution.answered_of_eq_nonEmpty houtcome)

end TagPrompt
