/-!
# The ChaCha stream with twelve rounds

A key of eight words determines an endless sequence of words, produced in blocks of sixteen.
Block `c` is the mixed and original state added, where the state holds four constants, the key,
the 64-bit number `c` and two zeros.

* `ChaCha.quarterRound`, `ChaCha.doubleRound`: the mixing;
* `ChaCha.block`: one block;
* `ChaCha.word key i`: word `i` of the sequence.
-/

namespace ChipEight.ChaCha

/-- The eight words of a key. -/
abbrev Key := Vector UInt32 8

/-- The key of zeros. -/
def zeroKey : Key := Vector.replicate 8 0

/-- The sixteen words of a state or of a block. -/
abbrev Block := Vector UInt32 16

/-- Rotate a word to the left by `k` places, for `k` between 1 and 31. -/
def rotateLeft (w k : UInt32) : UInt32 := w <<< k ||| w >>> (32 - k)

/-- Add word `b` to word `a`, mix the sum into word `d` and rotate that by `k` places. -/
def mix (s : Block) (a b d : Fin 16) (k : UInt32) : Block :=
  let s := s.set a (s[a] + s[b])
  s.set d (rotateLeft (s[d] ^^^ s[a]) k)

/-- Mix four words of a state. -/
def quarterRound (s : Block) (a b c d : Fin 16) : Block :=
  let s := mix s a b d 16
  let s := mix s c d b 12
  let s := mix s a b d 8
  mix s c d b 7

/-- Mix the columns, then the diagonals, of the state seen as a square. -/
def doubleRound (s : Block) : Block :=
  let s := quarterRound s 0 4 8 12
  let s := quarterRound s 1 5 9 13
  let s := quarterRound s 2 6 10 14
  let s := quarterRound s 3 7 11 15
  let s := quarterRound s 0 5 10 15
  let s := quarterRound s 1 6 11 12
  let s := quarterRound s 2 7 8 13
  quarterRound s 3 4 9 14

/-- Several double rounds. -/
def doubleRounds : Nat → Block → Block
  | 0, s => s
  | k + 1, s => doubleRounds k (doubleRound s)

/-- The state from which block `c` is made. -/
def start (key : Key) (c : Nat) : Block :=
  (#v[0x61707865, 0x3320646e, 0x79622d32, 0x6b206574] : Vector UInt32 4) ++ key ++
    (#v[UInt32.ofNat c, UInt32.ofNat (c / 4294967296), 0, 0] : Vector UInt32 4)

/-- Block `c` of the sequence: twelve rounds on the start state, which is then added again. -/
def block (key : Key) (c : Nat) : Block :=
  let s := start key c
  Vector.zipWith (· + ·) (doubleRounds 6 s) s

/-- Word `i` of the sequence. -/
def word (key : Key) (i : Nat) : UInt32 :=
  (block key (i / 16))[i % 16]

end ChipEight.ChaCha
