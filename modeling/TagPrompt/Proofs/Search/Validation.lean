import TagPrompt.Proofs.Search.QueryTags
import TagPrompt.Proofs.Search.Reuse

/-! Checking a query. Before anything is read or told, and before the cache is asked, a query is held
against the index: a query that names nothing has no answers, one that wants nothing is invalid, and
otherwise the first tag without an entry is the error, wanted tags before unwanted ones. Which of
these it comes to can be told from the tags as they were named. -/

namespace TagPrompt

/-- A tag without an entry that only tags with an entry come before. -/
def TagIndex.FirstMissing (index : TagIndex) (tags : List Text) (tag : Text) : Prop :=
  index.get? tag = none ∧
    ∃ before after, tags = before ++ tag :: after ∧ ∀ t ∈ before, index.get? t ≠ none

namespace Resolution

/-- The outcome is one that a query has without a search: it names nothing, or wants nothing, or
names a tag without an entry. -/
def Unsearched (resolution : Resolution) : Prop :=
  resolution.outcome = .ok [] ∨ resolution.outcome = .error .nothingWanted ∨
    ∃ tag, resolution.outcome = .error (.tagNotFound tag)

/-- How a query of wanted and unwanted tags is answered over an index and a cache, as far as checking
it goes. -/
structure Checked (resolution : Resolution) (index : TagIndex) (cache : AnswerCache)
    (wanted unwanted : List Text) : Prop where
  nothing_named : resolution.outcome = .ok [] ↔ wanted = [] ∧ unwanted = []
  nothing_wanted : resolution.outcome = .error .nothingWanted ↔ wanted = [] ∧ unwanted ≠ []
  tag_missing : ∀ tag, resolution.outcome = .error (.tagNotFound tag) ↔
    wanted ≠ [] ∧ index.FirstMissing (wanted ++ unwanted) tag
  /-- A query that wants something and whose tags all have entries has none of these outcomes. -/
  unsearched_iff : resolution.Unsearched ↔
    wanted = [] ∨ ∃ tag ∈ wanted ++ unwanted, index.get? tag = none
  /-- A query that is not searched for reads nothing, tells nothing and leaves the cache as it was. -/
  untouched : resolution.Unsearched →
    resolution.reads = [] ∧ resolution.progress = [] ∧ resolution.cache = cache

end Resolution

variable {index : TagIndex} {tags : List Text} {tag : Text} {r : Resolver} {cache : AnswerCache}
  {q : Query}

theorem TagIndex.misses_iff : index.misses tag = true ↔ index.get? tag = none :=
  Option.isNone_iff_eq_none

theorem TagIndex.firstMissing_iff :
    index.FirstMissing tags tag ↔ tags.find? index.misses = some tag := by
  simp only [List.find?_eq_some_iff_append, FirstMissing, misses_iff, Bool.not_eq_true',
    ← Bool.not_eq_true, ne_eq]

/-- Some tag has no entry exactly if one of them is the first. -/
theorem TagIndex.exists_firstMissing_iff :
    (∃ tag, index.FirstMissing tags tag) ↔ ∃ tag ∈ tags, index.get? tag = none := by
  simp only [firstMissing_iff, ← Option.isSome_iff_exists, List.find?_isSome, misses_iff]

/-! ### One query -/

/-- A search proper ends with offsets, with nothing found, or with a fetch that fails. -/
theorem Resolver.not_unsearched_of_accepts (h : r.index.Accepts q) (cache : AnswerCache) :
    ¬(r.resolve cache q).Unsearched := by
  -- a searched query has either the outcome of an answer or an error of a fetch
  have hanswer : ∀ offsets, (r.resolve cache q).outcome = nonEmpty offsets →
      ¬(r.resolve cache q).Unsearched := by
    intro offsets houtcome
    rw [Resolution.Unsearched, houtcome, nonEmpty]
    split_ifs with hempty
    · simp
    · simpa using hempty
  cases hcache : cache.get? q.key with
  | some offsets => exact hanswer offsets (by rw [resolve_of_cached h hcache])
  | none =>
      by_cases hreads : ∀ job ∈ r.index.jobsOf q, ¬r.ReadFails job.entry
      · obtain ⟨offsets, houtcome, -⟩ := resolve_of_reads h hcache hreads
        exact hanswer offsets houtcome
      · push Not at hreads
        obtain ⟨first, -, error, herror, -, hfails⟩ := exists_first_of_readFails h hcache hreads
        rw [Resolution.Unsearched, hfails.outcome]
        rcases eq_of_failure? herror with ⟨fault, rfl⟩ | rfl
        · simp
        · simp

theorem Resolver.checked_of_nothing_wanted (hwanted : q.wanted = []) (cache : AnswerCache) :
    (r.resolve cache q).Checked r.index cache q.wanted q.unwanted := by
  rw [resolve_of_settled (plan_of_nothing_wanted hwanted cache)]
  by_cases hunwanted : q.unwanted = []
  · rw [if_pos hunwanted]
    constructor <;> simp [Resolution.Unsearched, hwanted, hunwanted]
  · rw [if_neg hunwanted]
    constructor <;> simp [Resolution.Unsearched, hwanted, hunwanted]

theorem Resolver.checked_of_missing (hwanted : q.wanted ≠ [])
    (hmissing : (q.wanted ++ q.unwanted).find? r.index.misses = some tag) (cache : AnswerCache) :
    (r.resolve cache q).Checked r.index cache q.wanted q.unwanted := by
  rw [resolve_of_settled (plan_of_missing hwanted hmissing cache)]
  have hsome : ∃ t ∈ q.wanted ++ q.unwanted, r.index.get? t = none :=
    TagIndex.exists_firstMissing_iff.mp ⟨tag, TagIndex.firstMissing_iff.mpr hmissing⟩
  constructor
  · simp [hwanted]
  · simp [hwanted]
  · simp [hwanted, TagIndex.firstMissing_iff, hmissing]
  · exact iff_of_true (.inr (.inr ⟨tag, rfl⟩)) (.inr hsome)
  · exact fun _ => ⟨rfl, rfl, rfl⟩

theorem Resolver.checked_of_accepts (h : r.index.Accepts q) (cache : AnswerCache) :
    (r.resolve cache q).Checked r.index cache q.wanted q.unwanted := by
  have hsearched := not_unsearched_of_accepts h cache
  have hnone : ¬∃ tag ∈ q.wanted ++ q.unwanted, r.index.get? tag = none := by
    rintro ⟨tag, htag, hmissing⟩
    obtain ⟨entry, hentry⟩ := h.known tag htag
    cases hmissing.symm.trans hentry
  constructor
  · exact iff_of_false (fun hempty => hsearched (.inl hempty)) fun hnamed => h.wanted hnamed.1
  · exact iff_of_false (fun hinvalid => hsearched (.inr (.inl hinvalid)))
      fun hnamed => h.wanted hnamed.1
  · exact fun tag => iff_of_false (fun hmissing => hsearched (.inr (.inr ⟨tag, hmissing⟩)))
      fun hfirst => hnone (TagIndex.exists_firstMissing_iff.mp ⟨tag, hfirst.2⟩)
  · exact iff_of_false hsearched (not_or.mpr ⟨h.wanted, hnone⟩)
  · exact fun hunsearched => absurd hunsearched hsearched

theorem Resolver.checked_resolve (r : Resolver) (cache : AnswerCache) (q : Query) :
    (r.resolve cache q).Checked r.index cache q.wanted q.unwanted := by
  by_cases hwanted : q.wanted = []
  · exact checked_of_nothing_wanted hwanted cache
  · cases hmissing : (q.wanted ++ q.unwanted).find? r.index.misses with
    | some tag => exact checked_of_missing hwanted hmissing cache
    | none =>
        exact checked_of_accepts ⟨hwanted, TagIndex.find?_misses_eq_none_iff.mp hmissing⟩ cache

/-! ### Tags as they were named -/

namespace Query

/-- The tags that are not empty; naming an empty tag names none. -/
def named (tags : List Text) : List Text := tags.filter (· ≠ [])

theorem find?_addUnique (p : Text → Bool) (tags : List Text) (tag : Text) :
    (addUnique tags tag).find? p = (tags ++ named [tag]).find? p := by
  rw [addUnique]
  split_ifs with hskip
  · simp only [Bool.or_eq_true, List.isEmpty_iff, List.contains_iff_mem] at hskip
    by_cases hempty : tag = []
    · simp [named, hempty]
    · have hmem : tag ∈ tags := hskip.resolve_left hempty
      rw [List.find?_append]
      cases hfind : tags.find? p with
      | some found => rfl
      | none => simp [named, hempty, List.find?_eq_none.mp hfind tag hmem]
  · simp only [Bool.or_eq_true, List.isEmpty_iff, not_or] at hskip
    simp [named, hskip.1]

/-- Naming tags again changes nothing about which tag is the first of its kind. -/
theorem find?_foldl_addUnique (p : Text → Bool) (tags more : List Text) :
    (more.foldl addUnique tags).find? p = (tags ++ named more).find? p := by
  induction more generalizing tags with
  | nil => simp [named]
  | cons tag more ih =>
      have hnamed : named (tag :: more) = named [tag] ++ named more :=
        List.filter_append [tag] more
      calc (more.foldl addUnique (addUnique tags tag)).find? p
        _ = (addUnique tags tag ++ named more).find? p := ih (addUnique tags tag)
        _ = (tags ++ named [tag] ++ named more).find? p := by
            rw [List.find?_append, find?_addUnique, ← List.find?_append]
        _ = (tags ++ named (tag :: more)).find? p := by rw [hnamed, List.append_assoc]

theorem foldl_addUnique_eq_nil_iff {more : List Text} :
    more.foldl addUnique [] = [] ↔ named more = [] := by
  simp only [List.eq_nil_iff_forall_not_mem, mem_foldl_addUnique, named, List.mem_filter,
    List.not_mem_nil, false_or, decide_eq_true_eq]

end Query

/-- Checking asks only whether tags are named and which of them is the first without an entry. -/
theorem Resolution.Checked.congr {resolution : Resolution}
    {wanted unwanted wanted' unwanted' : List Text}
    (hwanted : wanted = [] ↔ wanted' = []) (hunwanted : unwanted = [] ↔ unwanted' = [])
    (hfirst : ∀ tag, index.FirstMissing (wanted ++ unwanted) tag ↔
      index.FirstMissing (wanted' ++ unwanted') tag)
    (h : resolution.Checked index cache wanted unwanted) :
    resolution.Checked index cache wanted' unwanted' where
  nothing_named := by rw [← hwanted, ← hunwanted, h.nothing_named]
  nothing_wanted := by rw [ne_eq, ← hwanted, ← hunwanted, h.nothing_wanted]
  tag_missing tag := by rw [ne_eq, ← hwanted, ← hfirst, h.tag_missing]
  unsearched_iff := by
    simp only [← TagIndex.exists_firstMissing_iff, ← hwanted, ← hfirst, h.unsearched_iff]
  untouched := h.untouched

theorem Resolver.checked_ofTags (r : Resolver) (cache : AnswerCache) (wanted unwanted : List Text) :
    (r.resolve cache (.ofTags wanted unwanted)).Checked r.index cache (Query.named wanted)
      (Query.named unwanted) := by
  refine (r.checked_resolve cache (.ofTags wanted unwanted)).congr ?_ ?_ fun tag => ?_
  · rw [Query.ofTags_eq, Query.foldl_addUnique_eq_nil_iff]
  · rw [Query.ofTags_eq, Query.foldl_addUnique_eq_nil_iff]
  · rw [Query.ofTags_eq, TagIndex.firstMissing_iff, TagIndex.firstMissing_iff, List.find?_append,
      List.find?_append, Query.find?_foldl_addUnique, Query.find?_foldl_addUnique, List.nil_append,
      List.nil_append]

/-- **Queries are checked first.** Over every index, source and cache: a query that names no tag has
no answers, one that names only unwanted tags is invalid, and otherwise the first tag without an
entry is the error, wanted tags before unwanted ones, also where the answer to a query of that key is
in the cache. None of these reads anything, tells anything or changes the cache, and no other query
has such an outcome. A query is made of the tags that are named without the empty ones, and tags
named again change nothing; a search text names the tags that are marked as unwanted, the mark alone
naming none, and the others as wanted. -/
theorem queries_are_checked_first (r : Resolver) (cache : AnswerCache) :
    (∀ q, (r.resolve cache q).Checked r.index cache q.wanted q.unwanted) ∧
      (∀ wanted unwanted, (r.resolve cache (.ofTags wanted unwanted)).Checked r.index cache
        (Query.named wanted) (Query.named unwanted)) ∧
      ∀ last text, (r.resolve cache (.ofSearch last text)).Checked r.index cache
        (Query.named (Query.wantedBy (Prompt.parse text last)))
        (Query.named (Query.unwantedBy (Prompt.parse text last))) := by
  refine ⟨r.checked_resolve cache, r.checked_ofTags cache, fun last text => ?_⟩
  rw [Query.ofSearch, Query.ofPrompt_eq]
  exact r.checked_ofTags cache _ _

/-- The key of a query in the cache does not hide that a tag is missing. -/
example :
    let r : Resolver :=
      { index := .ofEntries [⟨['b'], 0, 1⟩]
        positions := MemorySource.source { content := [] }
        limit := 0 }
    let q : Query := .ofTags [[], ['b'], ['a'], ['b']] [['c']]
    (r.resolve (some ⟨q.key, [7]⟩) q).outcome = .error (.tagNotFound ['a']) := by
  decide

end TagPrompt
