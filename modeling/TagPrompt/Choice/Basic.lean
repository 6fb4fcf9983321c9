/-! Choosing among items. Whatever makes choices is a state that turns a positive number of items
into the position of one of them; the expansion of texts and the picking of prompts are written
against this interface alone. -/

namespace TagPrompt

/-- A supply of choices. -/
class ChoiceSource (σ : Type) where
  /-- The position chosen among `n` items, and the supply after the choice. -/
  choose : (n : Nat) → 0 < n → σ → Fin n × σ

namespace ChoiceSource

variable {σ α : Type} [ChoiceSource σ]

/-- Chooses among a first item and further ones; a single item is a choice too. -/
def pickOne (first : α) (more : List α) (s : σ) : α × σ :=
  let (i, s) := choose (more.length + 1) (Nat.succ_pos _) s
  ((first :: more).get i, s)

/-- Chooses an item of a list; an empty list has none and leaves the supply as it is. -/
def pick (items : List α) (s : σ) : Option α × σ :=
  match items with
  | [] => (none, s)
  | first :: more =>
      let (item, s) := pickOne first more s
      (some item, s)

end ChoiceSource

/-! ### Words

Choices made from a stream of 32-bit words. A word scales to a position by the high half of its
product with the number of items; where the low half leaves the position in doubt, one more word
decides whether to step to the next one. -/

/-- A stream of 32-bit words and how many of them have been drawn. -/
structure Words where
  word : Nat → UInt32
  drawn : Nat := 0

namespace Words

def span : Nat := UInt32.size

def next (ws : Words) : UInt32 × Words := (ws.word ws.drawn, { ws with drawn := ws.drawn + 1 })

/-- A listed sequence of words that starts over at its end; no words at all are zeros. -/
def cycling (words : List UInt32) : Words :=
  { word := fun i => (words[i % words.length]?).getD 0 }

/-- Scaling keeps the position below the number of items. -/
theorem scaled_lt (w : UInt32) {n : Nat} (hn : 0 < n) : w.toNat * n / span < n := by
  have hw : w.toNat < span := w.toNat_lt
  rw [Nat.div_lt_iff_lt_mul (by decide), Nat.mul_comm]
  exact Nat.mul_lt_mul_of_pos_left hw hn

/-- A position in doubt is not the last one, so the step to the next one stays inside. -/
theorem scaled_succ_lt (w : UInt32) {n : Nat}
    (doubt : span - n < w.toNat * n % span) : w.toNat * n / span + 1 < n := by
  have hw : w.toNat + 1 ≤ span := w.toNat_lt
  have hmul : (w.toNat + 1) * n ≤ span * n := Nat.mul_le_mul_right n hw
  have hsplit := Nat.div_add_mod (w.toNat * n) span
  rw [Nat.add_mul, Nat.one_mul] at hmul
  generalize w.toNat * n = product at *
  simp only [span, UInt32.size] at *
  omega

/-- Chooses one of `n` positions. -/
def choose (n : Nat) (hn : 0 < n) (ws : Words) : Fin n × Words :=
  let (w, ws) := ws.next
  if doubt : span - n < w.toNat * n % span then
    let (v, ws) := ws.next
    if span ≤ w.toNat * n % span + v.toNat * n / span then
      (⟨w.toNat * n / span + 1, scaled_succ_lt w doubt⟩, ws)
    else (⟨w.toNat * n / span, scaled_lt w hn⟩, ws)
  else (⟨w.toNat * n / span, scaled_lt w hn⟩, ws)

instance : ChoiceSource Words := ⟨choose⟩

end Words
end TagPrompt
