import ChipEight.Random.ChaCha

/-!
# Random sources

A random source is an endless sequence of words together with the number of words taken from it.
A seed of 64 bits is first stretched to the key of a ChaCha sequence.

* `RandomSource`, `RandomSource.nextByte`;
* `RandomSource.ofKey`, `RandomSource.ofSeed`: the source of a key and of a seed;
* `RandomSource.ofList`: given words, then zeros.
-/

namespace ChipEight

/-- A sequence of words, of which the first `taken` have been used. -/
structure RandomSource where
  word : Nat → UInt32
  taken : Nat

namespace RandomSource

/-- The low byte of the next word, and the source without that word. -/
def nextByte (r : RandomSource) : UInt8 × RandomSource :=
  ((r.word r.taken).toUInt8, { r with taken := r.taken + 1 })

/-! ### Seeds -/

/-- One step of the generator that stretches a seed. -/
def stretch (s : UInt64) : UInt64 := s * 6364136223846793005 + 11634580027462260723

/-- The generator after `k` steps. -/
def stretched (seed : UInt64) : Nat → UInt64
  | 0 => seed
  | k + 1 => stretch (stretched seed k)

/-- The word that the generator gives in state `s`: a shifted mixture of its bits, rotated to the
right by the number in its top five bits. -/
def output (s : UInt64) : UInt32 :=
  let w := (((s >>> 18) ^^^ s) >>> 27).toUInt32
  let k := (s >>> 59).toUInt32
  w >>> k ||| w <<< ((32 - k) % 32)

/-- The key made from a seed: the outputs of the first eight states after it. -/
def key (seed : UInt64) : ChaCha.Key :=
  Vector.ofFn fun k => output (stretched seed (k.val + 1))

/-- The source that belongs to a key, nothing taken. -/
def ofKey (k : ChaCha.Key) : RandomSource := ⟨ChaCha.word k, 0⟩

/-- The source that belongs to a seed, nothing taken. -/
def ofSeed (seed : UInt64) : RandomSource := ofKey (key seed)

/-- The source that gives the words of a list, then zeros. -/
def ofList (ws : List UInt32) : RandomSource := ⟨fun i => (ws[i]?).getD 0, 0⟩

@[simp] theorem word_nextByte (r : RandomSource) : r.nextByte.2.word = r.word := rfl

@[simp] theorem taken_nextByte (r : RandomSource) : r.nextByte.2.taken = r.taken + 1 := rfl

end RandomSource

end ChipEight
