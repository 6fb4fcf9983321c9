import TagPrompt.Text.Basic

/-! Sets of line offsets. A set is the ascending list of its members, so equal sets are equal lists
and the list is the order in which offsets are shown. -/

namespace TagPrompt

/-- The byte offset of a corpus line. -/
abbrev Offset := UInt32

/-- A set of offsets. -/
structure PositionSet where
  values : List Offset
  ascending : values.Pairwise (· < ·)
  deriving DecidableEq, Repr

namespace PositionSet

def empty : PositionSet := ⟨[], .nil⟩

instance : Inhabited PositionSet := ⟨empty⟩

instance : Membership Offset PositionSet := ⟨fun s x => x ∈ s.values⟩

def size (s : PositionSet) : Nat := s.values.length

def contains (s : PositionSet) (x : Offset) : Bool := s.values.contains x

/-- Puts an offset at its place in an ascending list. -/
def place (x : Offset) : List Offset → List Offset
  | [] => [x]
  | y :: ys => if x < y then x :: y :: ys else if x = y then y :: ys else y :: place x ys

theorem mem_place {x z : Offset} {ys : List Offset} : z ∈ place x ys ↔ z = x ∨ z ∈ ys := by
  induction ys with
  | nil => simp [place]
  | cons y ys ih =>
      simp only [place]
      split
      · simp
      · split
        · rename_i same
          subst same
          simp
        · simp only [List.mem_cons, ih]
          exact or_left_comm

theorem pairwise_place {x : Offset} {ys : List Offset} (h : ys.Pairwise (· < ·)) :
    (place x ys).Pairwise (· < ·) := by
  induction ys with
  | nil => simp [place]
  | cons y ys ih =>
      rw [List.pairwise_cons] at h
      simp only [place]
      split
      · rename_i below
        refine List.pairwise_cons.mpr ⟨fun z hz => ?_, List.pairwise_cons.mpr h⟩
        rcases List.mem_cons.mp hz with rfl | hz
        · exact below
        · exact UInt32.lt_trans below (h.1 z hz)
      · split
        · exact List.pairwise_cons.mpr h
        · rename_i notBelow notSame
          refine List.pairwise_cons.mpr ⟨fun z hz => ?_, ih h.2⟩
          rcases mem_place.mp hz with rfl | hz
          · exact UInt32.lt_of_le_of_ne (UInt32.not_lt.mp notBelow) (Ne.symm notSame)
          · exact h.1 z hz

def insert (x : Offset) (s : PositionSet) : PositionSet :=
  ⟨place x s.values, pairwise_place s.ascending⟩

def ofList (xs : List Offset) : PositionSet := xs.foldr insert empty

def union (s t : PositionSet) : PositionSet := s.values.foldr insert t

def inter (s t : PositionSet) : PositionSet := ⟨s.values.filter t.contains, s.ascending.filter _⟩

/-- The offsets of the first set that are not in the second. -/
def diff (s t : PositionSet) : PositionSet :=
  ⟨s.values.filter fun x => !t.contains x, s.ascending.filter _⟩

/-- The least member. -/
def least? (s : PositionSet) : Option Offset := s.values.head?

/-- The greatest member. -/
def greatest? (s : PositionSet) : Option Offset := s.values.getLast?

end PositionSet
end TagPrompt
