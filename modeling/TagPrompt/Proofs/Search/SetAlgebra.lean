import TagPrompt.Proofs.Search.Planning
import TagPrompt.Proofs.Search.PositionSet

/-! What a search answers. Fetches may arrive in any order, and the wanted sets are intersected in
the order of their sizes, but the answer is known by its members: the offsets in the set of every
wanted tag and of no unwanted tag. So neither order has a part in it. -/

namespace TagPrompt

/-! ### Gathering -/

def Arrival.setFor? (role : Role) (arrival : Arrival) : Option PositionSet :=
  match arrival.fetched with
  | .positions set => if arrival.role = role then some set else none
  | _ => none

def setsFor (role : Role) (arrivals : List Arrival) : List PositionSet :=
  arrivals.filterMap (Arrival.setFor? role)

def Arrival.Succeeded (arrival : Arrival) : Prop := ∃ set, arrival.fetched = .positions set

/-- Takes the positions of an arrival in, if it brings any. -/
def Gathered.take (g : Gathered) (arrival : Arrival) : Gathered :=
  match arrival.fetched with
  | .positions set => g.add arrival.role set
  | _ => g

/-- What is told while fetches arrive one after another, from the one with number `first` on: how
many of all have arrived, in percent. -/
def toldFrom (total first count : Nat) : List Progress :=
  (List.range' first count).map fun k => .searching (100 * k / total)

/-- Arrivals that bring positions are taken in, each of them is told, and what follows goes on from
there. -/
theorem gather_append {arrivals : List Arrival} (h : ∀ arrival ∈ arrivals, arrival.Succeeded)
    (total : Nat) (g : Gathered) (rest : List Arrival) :
    gather total g (arrivals ++ rest) =
      (toldFrom total (g.arrived + 1) arrivals.length ++
          (gather total (arrivals.foldl Gathered.take g) rest).1,
        (gather total (arrivals.foldl Gathered.take g) rest).2) := by
  induction arrivals generalizing g with
  | nil => rfl
  | cons arrival arrivals ih =>
      obtain ⟨hfirst, hrest⟩ := List.forall_mem_cons.mp h
      obtain ⟨role, fetched⟩ := arrival
      obtain ⟨set, rfl⟩ : ∃ set, fetched = .positions set := hfirst
      have harrived : (g.add role set).arrived = g.arrived + 1 := by cases role <;> rfl
      have htold : toldFrom total (g.arrived + 1) (arrivals.length + 1) =
          .searching ((g.arrived + 1) * 100 / total) ::
            toldFrom total (g.arrived + 1 + 1) arrivals.length := by
        rw [toldFrom, List.range'_succ, List.map_cons, Nat.mul_comm 100]
        rfl
      rw [List.cons_append, gather, ih hrest, harrived, List.length_cons, htold]
      rfl

theorem gather_of_succeeded {arrivals : List Arrival} (h : ∀ arrival ∈ arrivals, arrival.Succeeded)
    (total : Nat) (g : Gathered) :
    gather total g arrivals =
      (toldFrom total (g.arrived + 1) arrivals.length, .ok (arrivals.foldl Gathered.take g)) := by
  have hgather := gather_append h total g []
  rwa [List.append_nil, gather, List.append_nil] at hgather

theorem foldl_take_wanted (arrivals : List Arrival) (g : Gathered) :
    (arrivals.foldl Gathered.take g).wanted = g.wanted ++ setsFor .wanted arrivals := by
  induction arrivals generalizing g with
  | nil => exact (List.append_nil _).symm
  | cons arrival arrivals ih =>
      obtain ⟨role, fetched⟩ := arrival
      rw [List.foldl_cons, ih, setsFor, setsFor, List.filterMap_cons]
      cases fetched with
      | positions set =>
          cases role with
          | wanted => exact List.append_assoc g.wanted [set] _
          | unwanted => rfl
      | failed error => rfl
      | crashed => rfl

theorem mem_foldl_take_unwanted {arrivals : List Arrival} {g : Gathered} {x : Offset} :
    x ∈ (arrivals.foldl Gathered.take g).unwanted ↔
      x ∈ g.unwanted ∨ ∃ set ∈ setsFor .unwanted arrivals, x ∈ set := by
  induction arrivals generalizing g with
  | nil => simp [setsFor]
  | cons arrival arrivals ih =>
      obtain ⟨role, fetched⟩ := arrival
      rw [List.foldl_cons, ih, setsFor, setsFor, List.filterMap_cons]
      cases fetched with
      | positions set =>
          cases role with
          | wanted => rfl
          | unwanted =>
              simp only [Gathered.take, Gathered.add, Arrival.setFor?, if_true,
                PositionSet.mem_union, List.exists_mem_cons_iff, or_assoc]
      | failed error => rfl
      | crashed => rfl

/-! ### Combining -/

/-- The size of the wanted sets only says where the intersection begins. -/
theorem mem_combine {wanted : List PositionSet} (h : wanted ≠ []) {unwanted : PositionSet}
    {x : Offset} :
    x ∈ combine wanted unwanted ↔ (∀ set ∈ wanted, x ∈ set) ∧ x ∉ unwanted := by
  have hperm := List.mergeSort_perm wanted fun s t => decide (s.size ≤ t.size)
  unfold combine
  cases hsorted : wanted.mergeSort fun s t => decide (s.size ≤ t.size) with
  | nil =>
      rw [hsorted] at hperm
      exact absurd hperm.nil_eq.symm h
  | cons first rest =>
      rw [hsorted] at hperm
      simp only [PositionSet.mem_diff, PositionSet.mem_foldl_inter, hperm.mem_iff]

def answerOf (arrivals : List Arrival) : List Offset := (arrivals.foldl Gathered.take {}).answer

theorem answerOf_ascending (arrivals : List Arrival) : (answerOf arrivals).Pairwise (· < ·) :=
  (combine _ _).ascending

theorem mem_answerOf {arrivals : List Arrival} (h : setsFor .wanted arrivals ≠ []) {x : Offset} :
    x ∈ answerOf arrivals ↔
      (∀ set ∈ setsFor .wanted arrivals, x ∈ set) ∧
        ∀ set ∈ setsFor .unwanted arrivals, x ∉ set := by
  have hwanted : (arrivals.foldl Gathered.take {}).wanted = setsFor .wanted arrivals :=
    foldl_take_wanted arrivals {}
  rw [answerOf, Gathered.answer, hwanted, ← PositionSet.mem_def, mem_combine h,
    mem_foldl_take_unwanted]
  simp only [PositionSet.not_mem_empty, false_or, not_exists, not_and]

theorem conclude_eq_of_succeeded {arrivals : List Arrival}
    (h : ∀ arrival ∈ arrivals, arrival.Succeeded) (cache : AnswerCache) (q : Query) :
    conclude cache q arrivals =
      { outcome := nonEmpty (answerOf arrivals)
        cache := some ⟨q.key, answerOf arrivals⟩
        progress := toldFrom arrivals.length 1 arrivals.length ++
          [.complete (answerOf arrivals).length] } := by
  rw [conclude, gather_of_succeeded h]
  rfl

theorem conclude_of_succeeded {arrivals : List Arrival}
    (h : ∀ arrival ∈ arrivals, arrival.Succeeded) (cache : AnswerCache) (q : Query) :
    (conclude cache q arrivals).outcome = nonEmpty (answerOf arrivals) ∧
      (conclude cache q arrivals).cache = some ⟨q.key, answerOf arrivals⟩ := by
  rw [conclude_eq_of_succeeded h]
  exact ⟨rfl, rfl⟩

end TagPrompt
