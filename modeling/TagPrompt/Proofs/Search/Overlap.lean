import TagPrompt.Proofs.Search.Calls

/-! Searches that overlap. Any number of calls share one cache, and between any two steps of one of
them the others take theirs. Only a call all of whose fetches brought positions changes the cache,
so the cache always holds the answer to its own query, and no call sees what others have
gathered. -/

namespace TagPrompt

/-- A call for the answer to a query. -/
structure Call where
  query : Query
  stage : Stage

/-- A cache and the calls that share it, in the order in which they were made. -/
structure Overlap where
  cache : AnswerCache := none
  calls : List Call := []

/-- The outcome of a query by itself: the offsets that it selects, or that there are none. -/
def Query.Yields (q : Query) (sets : Text → PositionSet)
    (outcome : Except SearchError (List Offset)) : Prop :=
  ∃ offsets, q.Selects sets offsets ∧
    outcome = if offsets = [] then .error .noMatches else .ok offsets

theorem Stage.Sound.yields {r : Resolver} {table : Bytes} {q : Query} {arrived : List Arrival}
    {outcome : Except SearchError (List Offset)}
    (h : (Stage.answered arrived outcome).Sound r table q) :
    q.Yields (r.setIn table) outcome := by
  obtain ⟨haccepts, hperm, rfl⟩ := h
  exact ⟨answerOf arrived, Query.selects_answerOf haccepts.wanted hperm, nonEmpty_eq _⟩

namespace Overlap

/-- A step of the call with a number: it is made, or it goes on. -/
inductive Step (r : Resolver) (table : Bytes) (i : Nat) : Overlap → Overlap → Prop
  | call {s : Overlap} (q : Query) (hnew : i = s.calls.length) :
      Step r table i s { s with calls := s.calls ++ [⟨q, .called⟩] }
  | advance {s : Overlap} {q : Query} {stage stage' : Stage} {cache' : AnswerCache}
      (hcall : s.calls[i]? = some ⟨q, stage⟩)
      (hstep : Advance r table q (s.cache, stage) (cache', stage')) :
      Step r table i s ⟨cache', s.calls.set i ⟨q, stage'⟩⟩

/-- From one state to another by steps of any calls. -/
def Reaches (r : Resolver) (table : Bytes) : Overlap → Overlap → Prop :=
  Relation.ReflTransGen fun s s' => ∃ i, Step r table i s s'

variable {r : Resolver} {table : Bytes} {s s' : Overlap} {i j : Nat} {q : Query}
  {stage : Stage} {call : Call} {arrived : List Arrival}

theorem getElem?_set_at {calls : List Call} (hcall : calls[i]? = some call) (call' : Call) :
    (calls.set i call')[i]? = some call' :=
  List.getElem?_set_self (List.getElem?_eq_some_iff.mp hcall).1

/-! ### What a step leaves as it is -/

/-- A step leaves the other calls as they are. -/
theorem Step.getElem?_of_ne (h : Step r table i s s') (hne : j ≠ i)
    (hcall : s.calls[j]? = some call) : s'.calls[j]? = some call := by
  cases h with
  | call q hnew =>
      rw [List.getElem?_append_left (List.getElem?_eq_some_iff.mp hcall).1]
      exact hcall
  | advance _ _ => exact (List.getElem?_set_ne hne.symm).trans hcall

/-- A call that was made before a step of it goes on in that step. -/
theorem Step.exists_advance (h : Step r table i s s') (hcall : s.calls[i]? = some ⟨q, stage⟩) :
    ∃ stage', s'.calls[i]? = some ⟨q, stage'⟩ ∧
      Advance r table q (s.cache, stage) (s'.cache, stage') := by
  cases h with
  | call _ hnew =>
      have hlt : i < s.calls.length := (List.getElem?_eq_some_iff.mp hcall).1
      exact absurd hlt (Nat.not_lt.mpr hnew.ge)
  | advance hat hstep =>
      rw [hcall] at hat
      cases hat
      exact ⟨_, getElem?_set_at hcall _, hstep⟩

/-- A call that has ended stays as it is. -/
theorem Step.getElem?_of_ended (h : Step r table i s s') (hended : call.stage.isOpen = false)
    (hcall : s.calls[j]? = some call) : s'.calls[j]? = some call := by
  refine h.getElem?_of_ne ?_ hcall
  rintro rfl
  obtain ⟨stage', -, hstep⟩ := h.exists_advance hcall
  rw [hstep.isOpen] at hended
  cases hended

theorem Reaches.getElem?_of_ended (h : Reaches r table s s') (hended : call.stage.isOpen = false)
    (hcall : s.calls[j]? = some call) : s'.calls[j]? = some call := by
  induction h with
  | refl => exact hcall
  | tail _ hstep ih =>
      obtain ⟨i, hstep⟩ := hstep
      exact hstep.getElem?_of_ended hended ih

/-- No step of a call that ends up failed or abandoned changes the cache. -/
theorem Step.cache_eq_of_lost (h : Step r table i s s') {later : Overlap}
    (hlater : Reaches r table s' later) (hcall : later.calls[i]? = some call)
    (hlost : call.stage.isLost = true) : s'.cache = s.cache := by
  cases h with
  | call _ _ => rfl
  | @advance q stage stage' cache' hat hstep =>
      rcases hstep.stores with hcache | ⟨arrived, outcome, rfl, rfl, -⟩
      · exact hcache
      · -- it has answered, and stays so
        have hsame := hlater.getElem?_of_ended rfl (getElem?_set_at hat _)
        rw [hcall] at hsame
        cases hsame
        cases hlost

/-! ### What holds of every state -/

/-- The cache is empty, or it has the answer of a call that brought all positions of its query. -/
def Explained (s : Overlap) : Prop :=
  s.cache = none ∨
    ∃ (i : Nat) (q : Query) (arrived : List Arrival) (outcome : Except SearchError (List Offset)),
      s.calls[i]? = some ⟨q, .answered arrived outcome⟩ ∧
        s.cache = some ⟨q.key, answerOf arrived⟩

structure Sound (r : Resolver) (table : Bytes) (s : Overlap) : Prop where
  stage_sound : ∀ call ∈ s.calls, call.stage.Sound r table call.query
  explained : s.Explained

theorem Sound.at (h : s.Sound r table) (hcall : s.calls[i]? = some ⟨q, stage⟩) :
    stage.Sound r table q :=
  h.stage_sound _ (List.mem_of_getElem? hcall)

/-- A step that leaves the cache leaves the call whose answer is in it. -/
theorem Step.explained (h : Step r table i s s') (hcache : s'.cache = s.cache)
    (hexplained : s.Explained) : s'.Explained := by
  rcases hexplained with hnone | ⟨j, q, arrived, outcome, hcall, hsome⟩
  · exact .inl (hcache.trans hnone)
  · exact .inr ⟨j, q, arrived, outcome, h.getElem?_of_ended rfl hcall, hcache.trans hsome⟩

/-- What a step preserves. -/
theorem Step.sound (h : Step r table i s s') (hs : s.Sound r table) : s'.Sound r table := by
  have hwhole := h
  cases h with
  | call q hnew =>
      refine ⟨fun call hcall => ?_, hwhole.explained rfl hs.explained⟩
      rcases List.mem_append.mp hcall with hmem | hmem
      · exact hs.stage_sound call hmem
      · obtain rfl := List.mem_singleton.mp hmem
        trivial
  | @advance q stage stage' cache' hat hstep =>
      have hstage : stage.Sound r table q := hs.at hat
      refine ⟨fun call hcall => ?_, ?_⟩
      · rcases List.mem_or_eq_of_mem_set hcall with hmem | rfl
        · exact hs.stage_sound call hmem
        · exact hstep.sound hstage
      · rcases hstep.stores with hcache | ⟨arrived, outcome, rfl, rfl, hcache⟩
        · exact hwhole.explained hcache hs.explained
        · exact .inr ⟨i, q, arrived, outcome, getElem?_set_at hat _,
            hcache.trans (Advance.conclude_of_sound hstage s.cache).2⟩

/-- What every run from an empty cache preserves. -/
theorem Reaches.sound (h : Reaches r table {} s) : s.Sound r table := by
  induction h with
  | refl => exact ⟨fun call hcall => absurd hcall List.not_mem_nil, .inl rfl⟩
  | tail _ hstep ih =>
      obtain ⟨i, hstep⟩ := hstep
      exact hstep.sound ih

/-- A run of one call is a run of the calls among which it is. -/
theorem reaches_of_advances {next : AnswerCache × Stage} (hcall : s.calls[i]? = some ⟨q, stage⟩)
    (h : Advances r table q (s.cache, stage) next) :
    Reaches r table s ⟨next.1, s.calls.set i ⟨q, next.2⟩⟩ := by
  induction h with
  | refl =>
      obtain ⟨hlt, hat⟩ := List.getElem?_eq_some_iff.mp hcall
      rw [← hat, List.set_getElem_self]
      exact .refl
  | @tail middle last _ hstep ih =>
      have hnext : Step r table i ⟨middle.1, s.calls.set i ⟨q, middle.2⟩⟩
          ⟨last.1, (s.calls.set i ⟨q, middle.2⟩).set i ⟨q, last.2⟩⟩ :=
        .advance (getElem?_set_at hcall _) hstep
      rw [List.set_set] at hnext
      exact ih.tail ⟨i, hnext⟩

end Overlap

/-- **Overlapping searches keep apart.** However the steps of the calls mix, the cache is empty or
has the key and the selection of a call all of whose fetches brought positions; no step of a call
that has failed or was abandoned has changed it; and a call that missed the cache and whose fetches
bring positions, in whatever order, returns the selection of its own query, or that nothing matches.
The steps of one call leave the others as they are. -/
theorem overlapping_searches_keep_apart (r : Resolver) (table : Bytes) (s : Overlap)
    (hreach : Overlap.Reaches r table {} s) :
    (s.cache = none ∨
      ∃ (i : Nat) (q : Query) (arrived : List Arrival)
        (outcome : Except SearchError (List Offset)) (offsets : List Offset),
        s.calls[i]? = some ⟨q, .answered arrived outcome⟩ ∧
          arrived.Perm (q.arrivals (r.setIn table)) ∧ q.Selects (r.setIn table) offsets ∧
          s.cache = some ⟨q.key, offsets⟩) ∧
      (∀ (i : Nat) (before after : Overlap) (call : Call), Overlap.Step r table i before after →
        Overlap.Reaches r table after s → s.calls[i]? = some call → call.stage.isLost = true →
          after.cache = before.cache) ∧
      (∀ (i : Nat) (q : Query) (arrived : List Arrival)
        (outcome : Except SearchError (List Offset)),
        s.calls[i]? = some ⟨q, .answered arrived outcome⟩ → q.Yields (r.setIn table) outcome) ∧
      (∀ (i : Nat) (q : Query) (out : List Job) (arrived : List Arrival),
        s.calls[i]? = some ⟨q, .fetching out arrived⟩ →
          (∀ job ∈ out, CanArrive r table job) → ∀ order, out.Perm order →
            ∃ s' outcome, Overlap.Reaches r table s s' ∧
              s'.calls[i]? =
                some ⟨q, .answered (arrived ++ order.map (Job.arrivalIn table)) outcome⟩ ∧
              q.Yields (r.setIn table) outcome) ∧
      (∀ (i : Nat) (q : Query) (arrived : List Arrival) (s' : Overlap),
        s.calls[i]? = some ⟨q, .fetching [] arrived⟩ → Overlap.Step r table i s s' →
          s'.calls[i]? = some ⟨q, .abandoned⟩ ∨
            ∃ outcome, s'.calls[i]? = some ⟨q, .answered arrived outcome⟩ ∧
              q.Yields (r.setIn table) outcome) ∧
      ∀ (i j : Nat) (s' : Overlap) (call : Call), Overlap.Step r table i s s' → j ≠ i →
        s.calls[j]? = some call → s'.calls[j]? = some call := by
  have hsound : s.Sound r table := hreach.sound
  refine ⟨?_, fun i before after call hstep hlater hcall hlost =>
      hstep.cache_eq_of_lost hlater hcall hlost,
    fun i q arrived outcome hcall => (hsound.at hcall).yields, ?_, ?_,
    fun i j s' call hstep hne hcall => hstep.getElem?_of_ne hne hcall⟩
  · rcases hsound.explained with hnone | ⟨i, q, arrived, outcome, hcall, hcache⟩
    · exact .inl hnone
    · obtain ⟨haccepts, hperm, -⟩ := hsound.at hcall
      exact .inr ⟨i, q, arrived, outcome, answerOf arrived, hcall, hperm,
        Query.selects_answerOf haccepts.wanted hperm, hcache⟩
  · intro i q out arrived hcall hcan order hperm
    obtain ⟨cache', outcome, hrun⟩ := advances_answered hcan hperm
    have hreach' := Overlap.reaches_of_advances hcall hrun
    have hanswered := Overlap.getElem?_set_at hcall
      ⟨q, .answered (arrived ++ order.map (Job.arrivalIn table)) outcome⟩
    have hsound' := Overlap.Reaches.sound (hreach.trans hreach')
    exact ⟨_, outcome, hreach', hanswered, (hsound'.at hanswered).yields⟩
  · intro i q arrived s' hcall hstep
    obtain ⟨stage', hcall', hadvance⟩ := hstep.exists_advance hcall
    rcases hadvance.of_all_arrived with rfl | ⟨outcome, rfl⟩
    · exact .inl hcall'
    · exact .inr ⟨outcome, hcall', ((hstep.sound hsound).at hcall').yields⟩

/-- Two calls, of which the second answers while a fetch of the first is out. -/
theorem overlapping_searches_keep_apart_two_calls :
    let table : Bytes := [5, 9, 5].flatMap slotBytes
    let r : Resolver :=
      { index := .ofEntries [⟨['a'], 0, 2⟩, ⟨['b'], 2, 3⟩]
        positions := MemorySource.source { content := table }
        limit := 0 }
    let q : Query := ⟨[['a']], [['b']]⟩
    let q' : Query := ⟨[['b']], []⟩
    ∃ s, Overlap.Reaches r table {} s ∧ s.cache = some ⟨q'.key, [5]⟩ ∧
      ∃ s' arrived outcome, Overlap.Reaches r table s s' ∧
        s'.calls[0]? = some ⟨q, .answered arrived outcome⟩ ∧ q.Yields (r.setIn table) outcome := by
  intro table r q q'
  let a : Job := ⟨.wanted, ⟨['a'], 0, 2⟩⟩
  let b : Job := ⟨.unwanted, ⟨['b'], 2, 3⟩⟩
  let b' : Job := ⟨.wanted, ⟨['b'], 2, 3⟩⟩
  let five : Arrival := ⟨.unwanted, .positions (.ofList [5])⟩
  let five' : Arrival := ⟨.wanted, .positions (.ofList [5])⟩
  have htrue : r.positions.TrueTo table r.limit :=
    ByteSource.Serves.trueTo (MemorySource.serves (by decide))
      (MemorySource.nothingInverted (by decide))
  have hcall : Overlap.Step r table 0 {} ⟨none, [⟨q, .called⟩]⟩ := .call q rfl
  have hcall' : Overlap.Step r table 1 ⟨none, [⟨q, .called⟩]⟩
      ⟨none, [⟨q, .called⟩, ⟨q', .called⟩]⟩ := .call q' rfl
  have hlookUp : Overlap.Step r table 0 ⟨none, [⟨q, .called⟩, ⟨q', .called⟩]⟩
      ⟨none, [⟨q, .fetching [a, b] []⟩, ⟨q', .called⟩]⟩ := .advance rfl .lookUp
  have hlookUp' : Overlap.Step r table 1 ⟨none, [⟨q, .fetching [a, b] []⟩, ⟨q', .called⟩]⟩
      ⟨none, [⟨q, .fetching [a, b] []⟩, ⟨q', .fetching [b'] []⟩]⟩ := .advance rfl .lookUp
  have harrive : Overlap.Step r table 0
      ⟨none, [⟨q, .fetching [a, b] []⟩, ⟨q', .fetching [b'] []⟩]⟩
      ⟨none, [⟨q, .fetching [a] [five]⟩, ⟨q', .fetching [b'] []⟩]⟩ :=
    .advance rfl (@Advance.arrive r table q none [a, b] [] b r.positions (.ofList [5]) (by decide)
      htrue (by decide))
  have harrive' : Overlap.Step r table 1
      ⟨none, [⟨q, .fetching [a] [five]⟩, ⟨q', .fetching [b'] []⟩]⟩
      ⟨none, [⟨q, .fetching [a] [five]⟩, ⟨q', .fetching [] [five']⟩]⟩ :=
    .advance rfl (@Advance.arrive r table q' none [b'] [] b' r.positions (.ofList [5]) (by decide)
      htrue (by decide))
  let s : Overlap := ⟨(conclude none q' [five']).cache, [⟨q, .fetching [a] [five]⟩,
    ⟨q', .answered [five'] (conclude none q' [five']).outcome⟩]⟩
  have hfinish : Overlap.Step r table 1
      ⟨none, [⟨q, .fetching [a] [five]⟩, ⟨q', .fetching [] [five']⟩]⟩ s := .advance rfl .finish
  have hreach : Overlap.Reaches r table {} s :=
    .head ⟨0, hcall⟩ <| .head ⟨1, hcall'⟩ <| .head ⟨0, hlookUp⟩ <| .head ⟨1, hlookUp'⟩ <|
      .head ⟨0, harrive⟩ <| .head ⟨1, harrive'⟩ <| .single ⟨1, hfinish⟩
  have hcan : ∀ job ∈ [a], CanArrive r table job := by
    intro job hjob
    obtain rfl := List.mem_singleton.mp hjob
    exact ⟨r.positions, .ofList [5, 9], htrue, by decide⟩
  obtain ⟨-, -, -, hanswers, -⟩ := overlapping_searches_keep_apart r table s hreach
  obtain ⟨s', outcome, hrun, hanswered, hyields⟩ := hanswers 0 q [a] [five] rfl hcan [a] (.refl _)
  exact ⟨s, hreach, by decide +kernel, s', _, outcome, hrun, hanswered, hyields⟩

end TagPrompt
