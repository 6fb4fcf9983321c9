import Mathlib.Data.List.Chain
import TagPrompt.Proofs.Search.PositionTable
import TagPrompt.Proofs.Search.QueryKey

/-! Queries answered one after another over one cache. From outside, the cache is known by the query
whose answer it holds: an accepted query with the key of that query is given its answer, and every
other accepted query takes its place. So a run shows its cache exactly when two neighbours among its
accepted queries agree in their keys, although a bar is shifted, and differ in their outcomes. -/

namespace TagPrompt

/-- The query whose answer a query is given: the held one if it has the same key. -/
def Query.heldOr (q : Query) (held : Option Query) : Query :=
  match held with
  | some p => if p.key = q.key then p else q
  | none => q

/-- The queries whose answers a run of queries is given, where the cache holds the answer to `held`.
-/
def TagIndex.answering (index : TagIndex) : (held : Option Query) → List Query → List Query
  | _, [] => []
  | held, q :: rest =>
      if index.Accepts q then
        q.heldOr held :: index.answering (some (q.heldOr held)) rest
      else q :: index.answering held rest

namespace Resolver

/-- The outcome of a query over an empty cache. -/
def fresh (r : Resolver) (q : Query) : Except SearchError (List Offset) :=
  (r.resolve none q).outcome

/-- The outcomes of queries answered one after another, the first of them over a cache. -/
def outcomes (r : Resolver) : AnswerCache → List Query → List (Except SearchError (List Offset))
  | _, [] => []
  | cache, q :: rest =>
      (r.resolve cache q).outcome :: r.outcomes (r.resolve cache q).cache rest

/-- The cache holds the answer to a query, or nothing. -/
def Holds (r : Resolver) (cache : AnswerCache) : Option Query → Prop
  | none => cache = none
  | some p => ∃ offsets, cache = some ⟨p.key, offsets⟩ ∧ r.fresh p = nonEmpty offsets

/-- If the queries have one key, they have one outcome. -/
def Agrees (r : Resolver) (p q : Query) : Prop := p.key = q.key → r.fresh p = r.fresh q

variable {r : Resolver} {table : Bytes} {cache : AnswerCache} {held : Option Query} {p q : Query}

/-! ### One query -/

theorem fresh_of_selects {sets : Text → PositionSet} {offsets : List Offset}
    (hwanted : q.wanted ≠ []) (hfinds : ∀ tag ∈ q.wanted ++ q.unwanted, r.Finds tag (sets tag))
    (hselects : q.Selects sets offsets) : r.fresh q = nonEmpty offsets :=
  (resolve_of_selects hwanted hfinds hselects rfl).1

/-- A query that is not accepted has one outcome over every cache and leaves the cache as it is. -/
theorem resolve_of_not_accepts (h : ¬r.index.Accepts q) (cache : AnswerCache) :
    (r.resolve cache q).outcome = r.fresh q ∧ (r.resolve cache q).cache = cache := by
  obtain ⟨outcome, hplan⟩ := plan_of_not_accepts h
  rw [fresh, resolve_of_settled (hplan cache), resolve_of_settled (hplan none)]
  exact ⟨rfl, rfl⟩

theorem resolve_of_hit (h : r.index.Accepts q) (hcache : r.Holds cache (some p))
    (hkey : p.key = q.key) :
    (r.resolve cache q).outcome = r.fresh p ∧ (r.resolve cache q).cache = cache := by
  obtain ⟨offsets, hstored, hfresh⟩ := hcache
  have hhit : cache.get? q.key = some offsets := by
    rw [hstored, AnswerCache.get?, if_pos hkey]
  rw [hfresh, resolve_of_settled (plan_of_cached h hhit)]
  exact ⟨rfl, rfl⟩

/-- An accepted query that is not in the cache has its outcome over an empty cache, and its answer
is held afterwards. -/
theorem resolve_of_miss (hcovered : r.Covered table) (h : r.index.Accepts q)
    (hmiss : cache.get? q.key = none) :
    (r.resolve cache q).outcome = r.fresh q ∧ r.Holds (r.resolve cache q).cache (some q) := by
  have hfinds := finds_of_covered hcovered h.known
  obtain ⟨offsets, hselects⟩ := exists_selects h.wanted hfinds
  have hfresh := fresh_of_selects h.wanted hfinds hselects
  obtain ⟨houtcome, hstored⟩ := resolve_of_selects h.wanted hfinds hselects hmiss
  exact ⟨houtcome.trans hfresh.symm, offsets, hstored, hfresh⟩

/-- An accepted query is given the answer of the held query with its key, or else its own, and that
answer is held afterwards. -/
theorem resolve_of_accepts (hcovered : r.Covered table) (h : r.index.Accepts q)
    (hcache : r.Holds cache held) :
    (r.resolve cache q).outcome = r.fresh (q.heldOr held) ∧
      r.Holds (r.resolve cache q).cache (some (q.heldOr held)) := by
  cases held with
  | none =>
      rw [show cache = none from hcache]
      exact resolve_of_miss hcovered h rfl
  | some p =>
      rw [Query.heldOr]
      by_cases hkey : p.key = q.key
      · obtain ⟨houtcome, hafter⟩ := resolve_of_hit h hcache hkey
        rw [if_pos hkey, hafter]
        exact ⟨houtcome, hcache⟩
      · obtain ⟨offsets, hstored, -⟩ := hcache
        have hmiss : cache.get? q.key = none := by
          rw [hstored, AnswerCache.get?, if_neg hkey]
        rw [if_neg hkey]
        exact resolve_of_miss hcovered h hmiss

/-! ### Runs -/

/-- A run gives the answers of the queries that are held. -/
theorem outcomes_eq (hcovered : r.Covered table) (hcache : r.Holds cache held)
    (queries : List Query) :
    r.outcomes cache queries = (r.index.answering held queries).map r.fresh := by
  induction queries generalizing cache held with
  | nil => rfl
  | cons q rest ih =>
      rw [outcomes, TagIndex.answering]
      by_cases haccepts : r.index.Accepts q
      · obtain ⟨houtcome, hafter⟩ := resolve_of_accepts hcovered haccepts hcache
        rw [if_pos haccepts, List.map_cons, houtcome, ih hafter]
      · obtain ⟨houtcome, hafter⟩ := resolve_of_not_accepts haccepts cache
        rw [if_neg haccepts, List.map_cons, houtcome, hafter, ih hcache]

theorem isChain_agrees_cons (hkey : p.key = q.key) (hfresh : r.fresh p = r.fresh q)
    (queries : List Query) :
    (p :: queries).IsChain r.Agrees ↔ (q :: queries).IsChain r.Agrees := by
  cases queries with
  | nil => exact ⟨fun _ => .singleton q, fun _ => .singleton p⟩
  | cons next rest =>
      rw [List.isChain_cons_cons, List.isChain_cons_cons, Agrees, Agrees, hkey, hfresh]

theorem isChain_agrees_heldOr (held : Option Query) (q : Query) (queries : List Query) :
    (r.fresh (q.heldOr held) = r.fresh q ∧ (q.heldOr held :: queries).IsChain r.Agrees) ↔
      (held.toList ++ q :: queries).IsChain r.Agrees := by
  cases held with
  | none => exact and_iff_right rfl
  | some p =>
      rw [Option.toList_some, List.singleton_append, List.isChain_cons_cons, Query.heldOr]
      by_cases hkey : p.key = q.key
      · -- the held query stays, and for what comes next it is as good as `q`
        rw [if_pos hkey]
        constructor
        · rintro ⟨hfresh, hchain⟩
          exact ⟨fun _ => hfresh, (isChain_agrees_cons hkey hfresh queries).mp hchain⟩
        · rintro ⟨hagrees, hchain⟩
          have hfresh := hagrees hkey
          exact ⟨hfresh, (isChain_agrees_cons hkey hfresh queries).mpr hchain⟩
      · rw [if_neg hkey]
        exact and_congr_left fun _ => ⟨fun _ h => absurd h hkey, fun _ => rfl⟩

/-- A run of queries is given answers of their own outcomes when neighbours among the accepted ones
agree, and only then. -/
theorem map_fresh_answering_iff (queries : List Query) :
    (r.index.answering held queries).map r.fresh = queries.map r.fresh ↔
      (held.toList ++ queries.filter fun q => r.index.Accepts q).IsChain r.Agrees := by
  induction queries generalizing held with
  | nil => cases held <;> simp [TagIndex.answering]
  | cons q rest ih =>
      rw [TagIndex.answering, List.filter_cons]
      by_cases haccepts : r.index.Accepts q
      · rw [if_pos haccepts, if_pos (decide_eq_true haccepts), List.map_cons, List.map_cons,
          List.cons.injEq, ih]
        exact isChain_agrees_heldOr held q _
      · rw [if_neg haccepts, if_neg (by simpa using haccepts), List.map_cons, List.map_cons,
          List.cons.injEq, ih]
        exact and_iff_right rfl

/-! ### Search texts -/

theorem fresh_of_sameTags (hcovered : r.Covered table) (hp : r.index.Accepts p)
    (hq : r.index.Accepts q) (hsame : p.SameTags q) : r.fresh p = r.fresh q := by
  have hfinds := finds_of_covered hcovered hp.known
  have hfinds' := finds_of_covered hcovered hq.known
  obtain ⟨offsets, hselects⟩ := exists_selects hp.wanted hfinds
  rw [fresh_of_selects hp.wanted hfinds hselects,
    fresh_of_selects hq.wanted hfinds' (hselects.of_sameTags hsame)]

/-- Accepted queries of search texts agree unless a bar is shifted. -/
theorem agrees_iff (hcovered : r.Covered table) {last : Prompt.LastSegment} {s t : Text}
    (hs : r.index.Accepts (.ofSearch last s)) (ht : r.index.Accepts (.ofSearch last t)) :
    r.Agrees (.ofSearch last s) (.ofSearch last t) ↔
      ((Query.ofSearch last s).Shifted (.ofSearch last t) ∨
        (Query.ofSearch last t).Shifted (.ofSearch last s) →
          r.fresh (.ofSearch last s) = r.fresh (.ofSearch last t)) := by
  obtain ⟨hclean, hunmarked⟩ := Query.ofSearch_clean last s
  obtain ⟨hclean', hunmarked'⟩ := Query.ofSearch_clean last t
  rw [Agrees, Query.key_eq_iff hclean hclean' hunmarked hunmarked', or_imp]
  exact and_iff_right (fresh_of_sameTags hcovered hs ht)

theorem not_shifted (h : ∀ tag entry, r.index.get? tag = some entry → Query.bar ∉ tag)
    (hp : r.index.Accepts p) : ¬p.Shifted q := by
  intro hshifted
  obtain ⟨⟨tag, htag, hbar⟩, -⟩ := hshifted.exists_bar
  obtain ⟨entry, hentry⟩ := hp.known tag (List.mem_append_right _ htag)
  exact h tag entry hentry hbar

end Resolver

/-- A run of search texts gives each the answer of the held query, and this is its own outcome all
along exactly when neighbours among the accepted queries have equal outcomes wherever a bar is
shifted between them. Nothing is shifted where no indexed tag holds a bar. -/
theorem cache_shows_at_shifted_bars (r : Resolver) (table : Bytes) (last : Prompt.LastSegment)
    (hcovered : r.Covered table) (texts : List Text) :
    let queries := texts.map (Query.ofSearch last)
    r.outcomes none queries = (r.index.answering none queries).map r.fresh ∧
      (r.outcomes none queries = queries.map r.fresh ↔
        (queries.filter fun q => r.index.Accepts q).IsChain
          fun p q => p.Shifted q ∨ q.Shifted p → r.fresh p = r.fresh q) ∧
      ((∀ tag entry, r.index.get? tag = some entry → Query.bar ∉ tag) →
        r.outcomes none queries = queries.map r.fresh) := by
  intro queries
  have hempty : r.Holds none none := rfl
  have hrun := Resolver.outcomes_eq hcovered hempty queries
  have haccepted : ∀ q ∈ queries.filter fun q => r.index.Accepts q,
      r.index.Accepts q ∧ ∃ text, Query.ofSearch last text = q := by
    intro q hq
    obtain ⟨hq, haccepts⟩ := List.mem_filter.mp hq
    obtain ⟨text, -, htext⟩ := List.mem_map.mp hq
    exact ⟨of_decide_eq_true haccepts, text, htext⟩
  have hiff : r.outcomes none queries = queries.map r.fresh ↔
      (queries.filter fun q => r.index.Accepts q).IsChain
        fun p q => p.Shifted q ∨ q.Shifted p → r.fresh p = r.fresh q := by
    rw [hrun, Resolver.map_fresh_answering_iff]
    refine List.IsChain.iff_of_mem_imp fun p q hp hq => ?_
    obtain ⟨hp, s, rfl⟩ := haccepted p hp
    obtain ⟨hq, t, rfl⟩ := haccepted q hq
    exact Resolver.agrees_iff hcovered hp hq
  refine ⟨hrun, hiff, fun hbars => hiff.mpr ?_⟩
  refine (List.pairwise_of_forall_mem_list fun p hp q hq hshifted => ?_).isChain
  rcases hshifted with hshifted | hshifted
  · exact absurd hshifted (Resolver.not_shifted hbars (haccepted p hp).1)
  · exact absurd hshifted (Resolver.not_shifted hbars (haccepted q hq).1)

/-- Wanting `a|b` and then wanting `a` and not `b|`: the second search is given the line at 0, which
lacks `a`, and not the line at 4, which has it. -/
theorem cache_shows_wrong_line :
    let table := [4, 0, 9].flatMap slotBytes
    let r : Resolver :=
      { index := .ofEntries [⟨"a".toList, 0, 1⟩, ⟨"a|b".toList, 1, 2⟩, ⟨"b|".toList, 2, 3⟩]
        positions := MemorySource.source { content := table }
        limit := 0 }
    let queries := ["a|b".toList, "a, ~b|".toList].map (Query.ofSearch .kept)
    r.Covered table ∧ r.outcomes none queries = [.ok [0], .ok [0]] ∧
      queries.map r.fresh = [.ok [0], .ok [4]] := by
  intro table r queries
  have hserves : r.positions.Serves table r.limit := MemorySource.serves rfl
  have hcovered : r.Covered table := Resolver.covered_of_entries hserves (by decide)
  have hqueries : queries = [⟨["a|b".toList], []⟩, ⟨["a".toList], ["b|".toList]⟩] := by decide
  have hselects : (⟨["a".toList], ["b|".toList]⟩ : Query).Selects (r.setIn table) [4] := by
    have hwanted : r.setIn table "a".toList = .ofList [4] := by decide
    have hunwanted : r.setIn table "b|".toList = .ofList [9] := by decide
    refine ⟨List.pairwise_singleton _ 4, fun x => ?_⟩
    simp only [List.forall_mem_singleton, hwanted, hunwanted, PositionSet.mem_ofList]
    refine ⟨fun hx => ⟨hx, ?_⟩, And.left⟩
    rw [List.mem_singleton.mp hx]
    decide
  have hsecond : r.fresh ⟨["a".toList], ["b|".toList]⟩ = .ok [4] :=
    Resolver.fresh_of_selects (List.cons_ne_nil _ _)
      (Resolver.finds_of_covered hcovered (by decide)) hselects
  refine ⟨hcovered, by decide +kernel, ?_⟩
  rw [hqueries, List.map_cons, List.map_singleton, hsecond]
  decide +kernel

/-- A run in which the third search is given the answer of the first. -/
theorem cache_shows_at_shifted_bars_same_tags :
    let table := [0, 6, 0, 6, 6].flatMap slotBytes
    let r : Resolver :=
      { index := .ofEntries [⟨"a".toList, 0, 2⟩, ⟨"b".toList, 2, 4⟩, ⟨"c".toList, 4, 5⟩]
        positions := MemorySource.source { content := table }
        limit := 0 }
    let queries := ["a, b, ~c".toList, "x".toList, "~c, b, a".toList].map (Query.ofSearch .kept)
    r.Covered table ∧ r.outcomes none queries = (r.index.answering none queries).map r.fresh := by
  intro table r queries
  have hserves : r.positions.Serves table r.limit := MemorySource.serves rfl
  have hcovered : r.Covered table := Resolver.covered_of_entries hserves (by decide)
  exact ⟨hcovered, (cache_shows_at_shifted_bars r table .kept hcovered
    ["a, b, ~c".toList, "x".toList, "~c, b, a".toList]).1⟩

end TagPrompt
