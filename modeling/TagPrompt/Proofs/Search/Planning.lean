import TagPrompt.Search.Resolver

/-! What is known about a query before anything is fetched. The fetches of a query are one for each
of its tags, wanted tags first, and the first tag without an entry is the error. A query that wants
nothing or names an unknown tag is settled without a look at the cache. -/

namespace TagPrompt

namespace TagIndex

def misses (index : TagIndex) (tag : Text) : Bool := (index.get? tag).isNone

def jobsFor (index : TagIndex) (role : Role) (tags : List Text) : List Job :=
  tags.filterMap fun tag => (index.get? tag).map (Job.mk role)

/-- The fetches of a query whose tags all have an entry. -/
def jobsOf (index : TagIndex) (q : Query) : List Job :=
  index.jobsFor .wanted q.wanted ++ index.jobsFor .unwanted q.unwanted

/-- Every tag of a query has an entry. -/
def Knows (index : TagIndex) (q : Query) : Prop :=
  ∀ tag ∈ q.wanted ++ q.unwanted, ∃ entry, index.get? tag = some entry

/-- A query that wants something and names known tags only. -/
structure Accepts (index : TagIndex) (q : Query) : Prop where
  wanted : q.wanted ≠ []
  known : index.Knows q

instance (index : TagIndex) (q : Query) : Decidable (index.Knows q) :=
  decidable_of_iff (∀ tag ∈ q.wanted ++ q.unwanted, (index.get? tag).isSome = true) <| by
    simp only [Option.isSome_iff_exists, Knows]

instance (index : TagIndex) (q : Query) : Decidable (index.Accepts q) :=
  decidable_of_iff (q.wanted ≠ [] ∧ index.Knows q) ⟨fun h => ⟨h.1, h.2⟩, fun h => ⟨h.1, h.2⟩⟩

variable {index : TagIndex} {role : Role} {tag : Text} {q : Query}

theorem jobFor_of_none (h : index.get? tag = none) :
    index.jobFor role tag = .error (.tagNotFound tag) := by
  rw [jobFor, lookup, h]
  rfl

theorem jobFor_of_some {entry : IndexEntry} (h : index.get? tag = some entry) :
    index.jobFor role tag = .ok ⟨role, entry⟩ := by
  rw [jobFor, lookup, h]
  rfl

theorem mapM_jobFor (index : TagIndex) (role : Role) (tags : List Text) :
    tags.mapM (index.jobFor role) =
      match tags.find? index.misses with
      | some tag => .error (.tagNotFound tag)
      | none => .ok (index.jobsFor role tags) := by
  induction tags with
  | nil => rfl
  | cons tag tags ih =>
      rw [List.mapM_cons, ih, List.find?_cons, misses]
      cases hentry : index.get? tag with
      | none =>
          rw [jobFor_of_none hentry]
          rfl
      | some entry =>
          rw [jobFor_of_some hentry, jobsFor, jobsFor, List.filterMap_cons, hentry]
          cases tags.find? index.misses <;> rfl

theorem jobs_eq :
    index.jobs q =
      match (q.wanted ++ q.unwanted).find? index.misses with
      | some tag => .error (.tagNotFound tag)
      | none => .ok (index.jobsOf q) := by
  rw [jobs, mapM_jobFor, mapM_jobFor, List.find?_append]
  cases q.wanted.find? index.misses with
  | some tag => rfl
  | none => cases q.unwanted.find? index.misses <;> rfl

theorem find?_misses_eq_none_iff :
    (q.wanted ++ q.unwanted).find? index.misses = none ↔ index.Knows q := by
  simp only [List.find?_eq_none, misses, Knows, Bool.not_eq_true, Option.isNone_eq_false_iff,
    Option.isSome_iff_exists]

theorem jobs_of_knows (h : index.Knows q) :
    index.jobs q = .ok (index.jobsOf q) := by
  rw [jobs_eq, find?_misses_eq_none_iff.mpr h]

end TagIndex

/-! ### The plan -/

variable {index : TagIndex} {q : Query}

/-- A query that wants something is planned by its fetches, and by the cache if it has them. -/
theorem plan_of_wanted (hwanted : q.wanted ≠ []) (cache : AnswerCache) :
    plan index cache q =
      match index.jobs q with
      | .error error => .settled (.error error)
      | .ok jobs =>
          match cache.get? q.key with
          | some offsets => .settled (nonEmpty offsets)
          | none => .fetch jobs := by
  have hnamed : ¬q.isEmpty = true := by simp [Query.isEmpty, hwanted]
  have hwants : ¬q.wanted.isEmpty = true := by simp [hwanted]
  exact (if_neg hnamed).trans (if_neg hwants)

theorem plan_of_cached (h : index.Accepts q) {cache : AnswerCache} {offsets : List Offset}
    (hcache : cache.get? q.key = some offsets) :
    plan index cache q = .settled (nonEmpty offsets) := by
  rw [plan_of_wanted h.wanted, TagIndex.jobs_of_knows h.known]
  simp only [hcache]

theorem plan_of_missed (h : index.Accepts q) {cache : AnswerCache}
    (hcache : cache.get? q.key = none) :
    plan index cache q = .fetch (index.jobsOf q) := by
  rw [plan_of_wanted h.wanted, TagIndex.jobs_of_knows h.known]
  simp only [hcache]

theorem plan_of_nothing_wanted (hwanted : q.wanted = []) (cache : AnswerCache) :
    plan index cache q =
      .settled (if q.unwanted = [] then .ok [] else .error .nothingWanted) := by
  by_cases hunwanted : q.unwanted = []
  · simp [plan, Query.isEmpty, hwanted, hunwanted]
  · simp [plan, Query.isEmpty, hwanted, hunwanted]

theorem plan_of_missing (hwanted : q.wanted ≠ []) {tag : Text}
    (hmissing : (q.wanted ++ q.unwanted).find? index.misses = some tag) (cache : AnswerCache) :
    plan index cache q = .settled (.error (.tagNotFound tag)) := by
  rw [plan_of_wanted hwanted, TagIndex.jobs_eq, hmissing]

/-- A query that wants nothing or names an unknown tag is settled alike over every cache. -/
theorem plan_of_not_accepts (h : ¬index.Accepts q) :
    ∃ outcome, ∀ cache, plan index cache q = .settled outcome := by
  by_cases hwanted : q.wanted = []
  · exact ⟨_, plan_of_nothing_wanted hwanted⟩
  · cases hmissing : (q.wanted ++ q.unwanted).find? index.misses with
    | some tag => exact ⟨_, plan_of_missing hwanted hmissing⟩
    | none => exact absurd ⟨hwanted, TagIndex.find?_misses_eq_none_iff.mp hmissing⟩ h

/-- Only an accepted query that is not in the cache is planned to be fetched. -/
theorem plan_eq_fetch {cache : AnswerCache} {jobs : List Job}
    (h : plan index cache q = .fetch jobs) :
    index.Accepts q ∧ cache.get? q.key = none ∧ jobs = index.jobsOf q := by
  by_cases haccepts : index.Accepts q
  · cases hcache : cache.get? q.key with
    | some offsets =>
        rw [plan_of_cached haccepts hcache] at h
        cases h
    | none =>
        rw [plan_of_missed haccepts hcache] at h
        cases h
        exact ⟨haccepts, rfl, rfl⟩
  · obtain ⟨outcome, hsettled⟩ := plan_of_not_accepts haccepts
    rw [hsettled cache] at h
    cases h

/-- What is settled is the answer at once: nothing is read or told, and the cache stays. -/
theorem Resolver.resolve_of_settled {r : Resolver} {cache : AnswerCache}
    {outcome : Except SearchError (List Offset)} (h : plan r.index cache q = .settled outcome) :
    r.resolve cache q = { outcome, cache } := by
  rw [resolve, h]

end TagPrompt
