import TagPrompt.Choice.Basic

/-! Word streams grown from a 64-bit seed: the seed is stretched to a 256-bit key by a permuted
congruential generator, and the words are the ChaCha keystream of that key with twelve rounds, a
64-bit block counter from zero and a zero nonce. -/

namespace TagPrompt.KeyStream

/-! ### The key -/

/-- One step of the congruential generator. -/
def advance (state : UInt64) : UInt64 := state * 6364136223846793005 + 11634580027462260723

def rotateRight (x r : UInt32) : UInt32 := (x >>> r) ||| (x <<< ((32 - r) &&& 31))

/-- The output permutation: a shifted difference, rotated by the five top bits. -/
def permute (state : UInt64) : UInt32 :=
  rotateRight (((state >>> 18) ^^^ state) >>> 27).toUInt32 (state >>> 59).toUInt32

/-- The states after one, two, … steps. -/
def states : Nat → UInt64 → List UInt64
  | 0, _ => []
  | n + 1, state => advance state :: states n (advance state)

/-- The eight key words of a seed. -/
def key (seed : UInt64) : List UInt32 := (states 8 seed).map permute

/-! ### The blocks -/

/-- The sixteen words that a block is computed in. -/
abbrev Block := Vector UInt32 16

def rotateLeft (x r : UInt32) : UInt32 := (x <<< r) ||| (x >>> (32 - r))

/-- The quarter round on four positions of a block. -/
def quarterRound (s : Block) (a b c d : Fin 16) : Block :=
  let s := s.set a (s[a] + s[b])
  let s := s.set d (rotateLeft (s[d] ^^^ s[a]) 16)
  let s := s.set c (s[c] + s[d])
  let s := s.set b (rotateLeft (s[b] ^^^ s[c]) 12)
  let s := s.set a (s[a] + s[b])
  let s := s.set d (rotateLeft (s[d] ^^^ s[a]) 8)
  let s := s.set c (s[c] + s[d])
  s.set b (rotateLeft (s[b] ^^^ s[c]) 7)

/-- A column round and a diagonal round. -/
def doubleRound (s : Block) : Block :=
  let s := quarterRound s 0 4 8 12
  let s := quarterRound s 1 5 9 13
  let s := quarterRound s 2 6 10 14
  let s := quarterRound s 3 7 11 15
  let s := quarterRound s 0 5 10 15
  let s := quarterRound s 1 6 11 12
  let s := quarterRound s 2 7 8 13
  quarterRound s 3 4 9 14

/-- The block before the rounds: four constants, the key, the counter and a zero nonce. -/
def start (key : List UInt32) (counter : UInt64) : Block :=
  let constants : List UInt32 := [0x61707865, 0x3320646e, 0x79622d32, 0x6b206574]
  let cells := constants ++ key ++ [counter.toUInt32, (counter >>> 32).toUInt32, 0, 0]
  Vector.ofFn fun i => cells[i.val]?.getD 0

/-- The keystream block at a counter: twelve rounds, then the starting block added. -/
def block (key : List UInt32) (counter : UInt64) : Block :=
  let s := start key counter
  Vector.zipWith (· + ·) (Nat.repeat doubleRound 6 s) s

/-- The keystream of a seed, word by word. -/
def ofSeed (seed : UInt64) : Words :=
  let k := key seed
  { word := fun i => (block k (i / 16).toUInt64)[(⟨i % 16, Nat.mod_lt i (by decide)⟩ : Fin 16)] }

end TagPrompt.KeyStream
