import Mathlib.Logic.Relation
import TagPrompt.Proofs.Search.Failure
import TagPrompt.Proofs.Search.PositionTable

/-! One call for the answer to a query, step by step. A call looks its query up at one moment, takes
its fetches in one at a time and in any order, and stores its answer at one moment behind the last of
them; it may be abandoned before it ends. What it has brought is always a part of what its query asks
for, and no step but the last one changes the cache, so it does not matter what becomes of the cache
between its steps. Answering a query from a source is a run of such steps. -/

namespace TagPrompt

/-! ### Fetches from one table -/

/-- The source has no other bytes than those of a content: a read in time ends with what the content
has in the range, or with the beginning of that. -/
def ByteSource.TrueTo (source : ByteSource) (content : Bytes) (limit : Millis) : Prop :=
  ∀ range bytes, (source.readWithin limit range).reading = .bytes bytes →
    bytes <+: range.cut content

theorem ByteSource.Serves.trueTo {source : ByteSource} {content : Bytes} {limit : Millis}
    (h : source.Serves content limit) (hnothing : source.NothingInverted limit) :
    source.TrueTo content limit := by
  intro range bytes hread
  rcases Nat.lt_or_ge range.stop range.start with hinverted | hordered
  · rcases hnothing range hinverted with hnone | hcrash
    · rw [hnone] at hread
      cases hread
      exact List.nil_prefix
    · rw [hcrash] at hread
      cases hread
  · rw [h range hordered] at hread
    cases hread
    exact List.prefix_rfl

/-- The arrival of a fetch that brings what a table has for its tag. -/
def Job.arrivalIn (table : Bytes) (job : Job) : Arrival :=
  ⟨job.role, .positions (job.entry.setIn table)⟩

theorem fetchPositions_of_trueTo {source : ByteSource} {table : Bytes} {limit : Millis}
    {entry : IndexEntry} {set : PositionSet} (htrue : source.TrueTo table limit)
    (hfetch : (fetchPositions source limit entry).1 = .positions set) :
    set = entry.setIn table := by
  rw [fetchPositions, readFor?] at hfetch
  cases hempty : entry.isEmpty with
  | true =>
      rw [hempty, if_pos rfl] at hfetch
      cases hfetch
      exact (IndexEntry.setIn_of_isEmpty hempty table).symm
  | false =>
      rw [hempty, if_neg Bool.false_ne_true] at hfetch
      cases hreading : (source.readWithin limit entry.byteRange).reading with
      | bytes content =>
          have hstart := htrue entry.byteRange content hreading
          simp only [hreading, fetchedOfReading, fetchedOfBytes] at hfetch
          split_ifs at hfetch with hlength
          -- as many bytes as the slots have are all that the table has there
          have hlong : (entry.byteRange.cut table).length ≤ content.length := by
            rw [hlength, ByteRange.length_cut]
            exact Nat.le_trans (Nat.min_le_left _ _) entry.length_byteRange_le
          cases hfetch
          rw [hstart.eq_of_length_le hlong, IndexEntry.setIn]
      | failed error => simp [hreading, fetchedOfReading] at hfetch
      | crashed => simp [hreading, fetchedOfReading] at hfetch

theorem Resolver.map_arrivalIn_jobsOf {r : Resolver} {table : Bytes} {q : Query}
    (h : r.index.Knows q) :
    (r.index.jobsOf q).map (Job.arrivalIn table) = q.arrivals (r.setIn table) := by
  refine TagIndex.map_jobsOf fun tag htag => ?_
  obtain ⟨entry, hentry⟩ := h tag htag
  exact ⟨entry, hentry, fun role => by rw [Job.arrivalIn, setIn, hentry]⟩

/-! ### Stages and steps -/

/-- How far a call has come. -/
inductive Stage
  /-- It has not looked its query up. -/
  | called
  /-- These fetches are out, and these have brought positions. -/
  | fetching (out : List Job) (arrived : List Arrival)
  /-- It has ended without a fetch. -/
  | settled (outcome : Except SearchError (List Offset))
  /-- It has ended with a fetch that brought no positions. -/
  | failed (outcome : Except SearchError (List Offset))
  /-- It has ended with the last of its fetches, all of which brought positions. -/
  | answered (arrived : List Arrival) (outcome : Except SearchError (List Offset))
  | abandoned

namespace Stage

/-- The stage behind the lookup. -/
def ofPlan : Plan → Stage
  | .settled outcome => .settled outcome
  | .fetch jobs => .fetching jobs []

/-- Whether the call goes on. -/
def isOpen : Stage → Bool
  | .called | .fetching .. => true
  | _ => false

/-- Whether the call has failed or was abandoned. -/
def isLost : Stage → Bool
  | .failed _ | .abandoned => true
  | _ => false

/-- What the call has returned. -/
def outcome? : Stage → Option (Except SearchError (List Offset))
  | .settled outcome | .failed outcome | .answered _ outcome => some outcome
  | _ => none

/-- A call that fetches has brought a part of the positions of its query, and the rest is out; a
call that has answered has brought them all, and returned the answer that they give. -/
def Sound (r : Resolver) (table : Bytes) (q : Query) : Stage → Prop
  | .fetching out arrived =>
      r.index.Accepts q ∧
        (arrived ++ out.map (Job.arrivalIn table)).Perm (q.arrivals (r.setIn table))
  | .answered arrived outcome =>
      r.index.Accepts q ∧ arrived.Perm (q.arrivals (r.setIn table)) ∧
        outcome = nonEmpty (answerOf arrived)
  | _ => True

theorem sound_ofPlan (r : Resolver) (table : Bytes) (cache : AnswerCache) (q : Query) :
    (ofPlan (plan r.index cache q)).Sound r table q := by
  cases hplan : plan r.index cache q with
  | settled outcome => trivial
  | fetch jobs =>
      obtain ⟨haccepts, -, rfl⟩ := plan_eq_fetch hplan
      exact ⟨haccepts, List.Perm.of_eq (Resolver.map_arrivalIn_jobsOf haccepts.known)⟩

end Stage

/-- A step of a call, from the cache that it meets to the cache that it leaves. Each fetch may meet
another source, as long as those that bring positions bring what the table has. -/
inductive Advance (r : Resolver) (table : Bytes) (q : Query) :
    AnswerCache × Stage → AnswerCache × Stage → Prop
  | lookUp {cache : AnswerCache} :
      Advance r table q (cache, .called) (cache, .ofPlan (plan r.index cache q))
  | arrive {cache : AnswerCache} {out : List Job} {arrived : List Arrival} {job : Job}
      {source : ByteSource} {set : PositionSet} (hjob : job ∈ out)
      (htrue : source.TrueTo table r.limit)
      (hfetch : (fetchPositions source r.limit job.entry).1 = .positions set) :
      Advance r table q (cache, .fetching out arrived)
        (cache, .fetching (out.erase job) (arrived ++ [⟨job.role, .positions set⟩]))
  | fail {cache : AnswerCache} {out : List Job} {arrived : List Arrival} {job : Job}
      {fetched : Fetched} (hjob : job ∈ out) (hfailed : fetched.failure? ≠ none) :
      Advance r table q (cache, .fetching out arrived)
        ((conclude cache q (arrived ++ [⟨job.role, fetched⟩])).cache,
          .failed (conclude cache q (arrived ++ [⟨job.role, fetched⟩])).outcome)
  | finish {cache : AnswerCache} {arrived : List Arrival} :
      Advance r table q (cache, .fetching [] arrived)
        ((conclude cache q arrived).cache, .answered arrived (conclude cache q arrived).outcome)
  | abandon {cache : AnswerCache} {stage : Stage} (hopen : stage.isOpen = true) :
      Advance r table q (cache, stage) (cache, .abandoned)

/-- Steps of a call while nothing else changes the cache. -/
def Advances (r : Resolver) (table : Bytes) (q : Query) :
    AnswerCache × Stage → AnswerCache × Stage → Prop :=
  Relation.ReflTransGen (Advance r table q)

variable {r : Resolver} {table : Bytes} {q : Query} {cache cache' : AnswerCache}
  {stage stage' : Stage} {arrived : List Arrival}

/-! ### What a step does -/

namespace Advance

theorem isOpen {next : AnswerCache × Stage} (h : Advance r table q (cache, stage) next) :
    stage.isOpen = true := by
  cases h with
  | lookUp => rfl
  | arrive _ _ _ => rfl
  | fail _ _ => rfl
  | finish => rfl
  | abandon hopen => exact hopen

/-- The cache stays, or the call has brought everything and stores its answer. -/
theorem stores (h : Advance r table q (cache, stage) (cache', stage')) :
    cache' = cache ∨
      ∃ arrived outcome, stage = .fetching [] arrived ∧ stage' = .answered arrived outcome ∧
        cache' = (conclude cache q arrived).cache := by
  cases h with
  | lookUp => exact .inl rfl
  | arrive _ _ _ => exact .inl rfl
  | @fail _ out arrived job fetched _ hfailed =>
      have hlast : ∃ arrival ∈ arrived ++ [⟨job.role, fetched⟩], ¬arrival.Succeeded :=
        ⟨_, List.mem_append_right _ (List.mem_singleton_self _), mt failure?_eq_none_iff.mpr hfailed⟩
      obtain ⟨failing, error, hfirst, herror⟩ := exists_failsFirst hlast
      exact .inl (conclude_of_failed hfirst herror cache q).cache_eq
  | finish => exact .inr ⟨_, _, rfl, rfl, rfl⟩
  | abandon _ => exact .inl rfl

/-- A fetch that has arrived moves from those that are out to those that have arrived. -/
theorem perm_of_arrive {out : List Job} {job : Job} (hjob : job ∈ out) (table : Bytes)
    (arrived : List Arrival) :
    (arrived ++ [job.arrivalIn table] ++ (out.erase job).map (Job.arrivalIn table)).Perm
      (arrived ++ out.map (Job.arrivalIn table)) := by
  have herase : (out.map (Job.arrivalIn table)).Perm
      (job.arrivalIn table :: (out.erase job).map (Job.arrivalIn table)) :=
    (List.perm_cons_erase hjob).map (Job.arrivalIn table)
  rw [List.append_assoc, List.singleton_append]
  exact herase.symm.append_left arrived

theorem conclude_of_sound (hs : (Stage.fetching [] arrived).Sound r table q)
    (cache : AnswerCache) :
    (conclude cache q arrived).outcome = nonEmpty (answerOf arrived) ∧
      (conclude cache q arrived).cache = some ⟨q.key, answerOf arrived⟩ := by
  obtain ⟨haccepts, hperm⟩ := hs
  rw [List.map_nil, List.append_nil] at hperm
  exact conclude_of_succeeded (Query.succeeded_of_perm hperm) cache q

theorem sound (h : Advance r table q (cache, stage) (cache', stage'))
    (hs : stage.Sound r table q) : stage'.Sound r table q := by
  cases h with
  | lookUp => exact Stage.sound_ofPlan r table cache q
  | @arrive _ out arrived job source set hjob htrue hfetch =>
      obtain ⟨haccepts, hperm⟩ := hs
      obtain rfl := fetchPositions_of_trueTo htrue hfetch
      exact ⟨haccepts, (perm_of_arrive hjob table arrived).trans hperm⟩
  | fail _ _ => trivial
  | finish =>
      have houtcome := (conclude_of_sound hs cache).1
      obtain ⟨haccepts, hperm⟩ := hs
      rw [List.map_nil, List.append_nil] at hperm
      exact ⟨haccepts, hperm, houtcome⟩
  | abandon _ => trivial

/-- A call that has brought all positions of its query answers with its next step, unless it is
abandoned. -/
theorem of_all_arrived (h : Advance r table q (cache, .fetching [] arrived) (cache', stage')) :
    stage' = .abandoned ∨ ∃ outcome, stage' = .answered arrived outcome := by
  cases h with
  | arrive hjob _ _ => exact absurd hjob List.not_mem_nil
  | fail hjob _ => exact absurd hjob List.not_mem_nil
  | finish => exact .inr ⟨_, rfl⟩
  | abandon _ => exact .inl rfl

end Advance

/-! ### What a call can come to -/

/-- Some source that has no other bytes than the table brings the positions of a fetch. -/
def CanArrive (r : Resolver) (table : Bytes) (job : Job) : Prop :=
  ∃ source set, source.TrueTo table r.limit ∧
    (fetchPositions source r.limit job.entry).1 = .positions set

theorem Advance.arriveIn {out : List Job} {job : Job} (hcan : CanArrive r table job)
    (hjob : job ∈ out) :
    Advance r table q (cache, .fetching out arrived)
      (cache, .fetching (out.erase job) (arrived ++ [job.arrivalIn table])) := by
  obtain ⟨source, set, htrue, hfetch⟩ := hcan
  obtain rfl := fetchPositions_of_trueTo htrue hfetch
  exact .arrive hjob htrue hfetch

/-- A call can take fetches in, in any order. -/
theorem advances_arriveIn {done rest out : List Job} (hcan : ∀ job ∈ done, CanArrive r table job)
    (hperm : out.Perm (done ++ rest)) :
    ∃ out', out'.Perm rest ∧
      Advances r table q (cache, .fetching out arrived)
        (cache, .fetching out' (arrived ++ done.map (Job.arrivalIn table))) := by
  induction done generalizing out arrived with
  | nil =>
      refine ⟨out, hperm, ?_⟩
      rw [List.map_nil, List.append_nil]
      exact .refl
  | cons job done ih =>
      obtain ⟨hfirst, hrest⟩ := List.forall_mem_cons.mp hcan
      have hjob : job ∈ out := hperm.mem_iff.mpr List.mem_cons_self
      have hout : (out.erase job).Perm (done ++ rest) :=
        (List.cons_perm_iff_perm_erase.mp hperm.symm).2.symm
      have hstep : Advance r table q (cache, .fetching out arrived)
          (cache, .fetching (out.erase job) (arrived ++ [job.arrivalIn table])) :=
        .arriveIn hfirst hjob
      have hmove : arrived ++ (job :: done).map (Job.arrivalIn table) =
          arrived ++ [job.arrivalIn table] ++ done.map (Job.arrivalIn table) := by
        rw [List.map_cons, List.append_assoc, List.singleton_append]
      obtain ⟨out', hout', hrun⟩ := ih hrest hout
      rw [hmove]
      exact ⟨out', hout', .head hstep hrun⟩

/-- A call all of whose fetches can bring positions can answer, in whatever order it takes them. -/
theorem advances_answered {order out : List Job} (hcan : ∀ job ∈ out, CanArrive r table job)
    (hperm : out.Perm order) :
    ∃ cache' outcome, Advances r table q (cache, .fetching out arrived)
      (cache', .answered (arrived ++ order.map (Job.arrivalIn table)) outcome) := by
  have hcan' : ∀ job ∈ order, CanArrive r table job :=
    fun job hjob => hcan job (hperm.mem_iff.mpr hjob)
  have hnone : out.Perm (order ++ []) := by rwa [List.append_nil]
  obtain ⟨out', hout', hrun⟩ := advances_arriveIn hcan' hnone
  obtain rfl := hout'.eq_nil
  exact ⟨_, _, hrun.tail .finish⟩

/-! ### One search by itself -/

theorem arrival_of_succeeded (htrue : r.positions.TrueTo table r.limit) {job : Job}
    (h : (r.arrival job).Succeeded) :
    r.arrival job = job.arrivalIn table ∧ CanArrive r table job := by
  obtain ⟨set, hfetch⟩ := h
  refine ⟨?_, r.positions, set, htrue, hfetch⟩
  rw [Resolver.arrival_eq, Job.arrivalIn, ← fetchPositions_of_trueTo htrue hfetch]
  exact congrArg (Arrival.mk job.role) hfetch

/-- A call can take in fetches from the source before which none has failed. -/
theorem advances_arrived (htrue : r.positions.TrueTo table r.limit) (cache : AnswerCache)
    (q : Query) {done rest out : List Job}
    (hdone : ∀ arrival ∈ done.map r.arrival, arrival.Succeeded) (hperm : out.Perm (done ++ rest)) :
    ∃ out', out'.Perm rest ∧
      Advances r table q (cache, .fetching out []) (cache, .fetching out' (done.map r.arrival)) := by
  have hsame : ∀ job ∈ done, r.arrival job = job.arrivalIn table ∧ CanArrive r table job :=
    fun job hjob => arrival_of_succeeded htrue (hdone _ (List.mem_map_of_mem hjob))
  have hmap : done.map r.arrival = done.map (Job.arrivalIn table) :=
    List.map_congr_left fun job hjob => (hsame job hjob).1
  rw [hmap]
  exact advances_arriveIn (fun job hjob => (hsame job hjob).2) hperm

/-- A call all of whose fetches bring positions ends like the search that they conclude. -/
theorem advances_concluded (htrue : r.positions.TrueTo table r.limit) {out order : List Job}
    (hperm : out.Perm order) (hall : ∀ arrival ∈ order.map r.arrival, arrival.Succeeded) :
    ∃ stage, stage.outcome? = some (conclude cache q (order.map r.arrival)).outcome ∧
      Advances r table q (cache, .fetching out [])
        ((conclude cache q (order.map r.arrival)).cache, stage) := by
  have hnone : out.Perm (order ++ []) := by rwa [List.append_nil]
  obtain ⟨out', hout', hrun⟩ := advances_arrived htrue cache q hall hnone
  obtain rfl := hout'.eq_nil
  exact ⟨.answered _ _, rfl, hrun.tail .finish⟩

/-- A call one of whose fetches brings no positions ends like the search that they conclude, with
the first of these. -/
theorem advances_concluded_of_failed (htrue : r.positions.TrueTo table r.limit)
    {out order : List Job} (hperm : out.Perm order)
    (hsome : ∃ arrival ∈ order.map r.arrival, ¬arrival.Succeeded) :
    ∃ stage, stage.outcome? = some (conclude cache q (order.map r.arrival)).outcome ∧
      Advances r table q (cache, .fetching out [])
        ((conclude cache q (order.map r.arrival)).cache, stage) := by
  obtain ⟨failing, error, hfirst, herror⟩ := exists_failsFirst hsome
  have hwhole := conclude_of_failed hfirst herror cache q
  obtain ⟨before, after, hsplit, hbefore⟩ := hfirst
  obtain ⟨done, rest, rfl, rfl, hrest⟩ := List.map_eq_append_iff.mp hsplit
  obtain ⟨job, rest, rfl, rfl, -⟩ := List.map_eq_cons_iff.mp hrest
  obtain ⟨out', hout', hrun⟩ := advances_arrived htrue cache q hbefore hperm
  have hjob : job ∈ out' := hout'.mem_iff.mpr List.mem_cons_self
  have hfailed : (r.arrival job).fetched.failure? ≠ none := by
    rw [herror]
    exact Option.some_ne_none error
  -- what has arrived up to the failure concludes the search as all arrivals do
  have hpart : (conclude cache q (done.map r.arrival ++ [r.arrival job])).FailsWith cache error :=
    conclude_of_failed ⟨_, _, rfl, hbefore⟩ herror cache q
  have hend : ((conclude cache q (done.map r.arrival ++ [r.arrival job])).cache,
      Stage.failed (conclude cache q (done.map r.arrival ++ [r.arrival job])).outcome) =
        (cache, .failed (.error error)) := by
    rw [hpart.cache_eq, hpart.outcome]
  refine ⟨.failed (.error error), congrArg some hwhole.outcome.symm, ?_⟩
  rw [hwhole.cache_eq, ← hend]
  exact hrun.tail (.fail hjob hfailed)

/-- Answering a query from a source is a run of one call. -/
theorem advances_resolve (htrue : r.positions.TrueTo table r.limit) (cache : AnswerCache)
    (q : Query) :
    ∃ stage, stage.outcome? = some (r.resolve cache q).outcome ∧
      Advances r table q (cache, .called) ((r.resolve cache q).cache, stage) := by
  have hplanned : Advances r table q (cache, .called) _ := .single .lookUp
  cases hplan : plan r.index cache q with
  | settled outcome =>
      rw [hplan] at hplanned
      refine ⟨.settled outcome, ?_, ?_⟩
      · rw [Resolver.resolve, hplan]
        rfl
      · rw [Resolver.resolve, hplan]
        exact hplanned
  | fetch jobs =>
      rw [hplan] at hplanned
      obtain ⟨haccepts, hmiss, rfl⟩ := plan_eq_fetch hplan
      obtain ⟨order, hperm, -, houtcome, hcache⟩ := Resolver.resolve_in_order haccepts hmiss
      rw [houtcome, hcache]
      by_cases hall : ∀ arrival ∈ order.map r.arrival, arrival.Succeeded
      · obtain ⟨stage, hstage, hrun⟩ := advances_concluded htrue hperm.symm hall
        exact ⟨stage, hstage, hplanned.trans hrun⟩
      · push Not at hall
        obtain ⟨stage, hstage, hrun⟩ := advances_concluded_of_failed htrue hperm.symm hall
        exact ⟨stage, hstage, hplanned.trans hrun⟩

/-- Giving up on a query is a run of one call too, which leaves the cache. -/
theorem advances_abandoned (r : Resolver) (table : Bytes) {time : Millis}
    (hdropped : (r.abandon cache q time).dropped = true) :
    Advances r table q (cache, .called) ((r.abandon cache q time).cache, .abandoned) := by
  have hcache : (r.abandon cache q time).cache = cache := by
    rw [Resolver.abandon] at hdropped ⊢
    cases hplan : plan r.index cache q with
    | settled outcome => rfl
    | fetch jobs =>
        simp only [hplan] at hdropped ⊢
        split_ifs at hdropped ⊢ <;> rfl
  rw [hcache]
  exact .single (.abandon rfl)

end TagPrompt
