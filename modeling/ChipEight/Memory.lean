import ChipEight.Fault

/-!
# Memory

A store of 4096 bytes.  Reading and writing a window of it either succeeds as a whole or is
refused as a whole: the window must end inside the memory, its start and length being added
without any bound.

* `Memory`, `Memory.zero`, `Memory.byte`;
* `Memory.read`, `Memory.write`: the checked operations;
* `Memory.store`: the effect of a write, and `byte_store`, which says what it leaves behind.
-/

namespace ChipEight

/-- The number of bytes of memory. -/
def Memory.size : Nat := 4096

/-- The contents of the memory. -/
structure Memory where
  bytes : Vector UInt8 Memory.size
  deriving DecidableEq

namespace Memory

/-- Memory that holds zeros only. -/
def zero : Memory := ⟨Vector.replicate Memory.size 0⟩

/-- The byte at address `a`; past the end of memory, zero. -/
def byte (m : Memory) (a : Nat) : UInt8 := (m.bytes[a]?).getD 0

/-- The window of `n` bytes from `a` on. -/
def window (m : Memory) (a n : Nat) : List UInt8 := (List.range' a n).map m.byte

/-- The fault of an access that starts at `a` and leaves the memory. -/
def outside (a : Nat) : Fault := .outOfBounds (max a Memory.size)

/-- The window of `n` bytes from `a` on, if it ends inside the memory. -/
def read (m : Memory) (a n : Nat) : Except Fault (List UInt8) :=
  if a + n ≤ Memory.size then .ok (m.window a n) else .error (outside a)

/-- Put bytes at `a`, `a + 1`, …; what falls past the end of memory is dropped. -/
def store (m : Memory) (a : Nat) : List UInt8 → Memory
  | [] => m
  | b :: bs => store ⟨m.bytes.setIfInBounds a b⟩ (a + 1) bs

/-- Put bytes at `a`, `a + 1`, …, if all of them fall inside the memory. -/
def write (m : Memory) (a : Nat) (bs : List UInt8) : Except Fault Memory :=
  if a + bs.length ≤ Memory.size then .ok (m.store a bs) else .error (outside a)

/-! ### Bytes of each operation -/

@[simp] theorem byte_zero (a : Nat) : zero.byte a = 0 := by
  simp only [byte, zero, Vector.getElem?_replicate]
  split <;> rfl

/-- Two memories with the same bytes are the same. -/
@[ext] theorem ext {m n : Memory} (h : ∀ a < Memory.size, m.byte a = n.byte a) : m = n := by
  obtain ⟨v⟩ := m
  obtain ⟨w⟩ := n
  congr 1
  apply Vector.ext
  intro a ha
  simpa [byte, ha] using h a ha

@[simp] theorem length_window (m : Memory) (a n : Nat) : (m.window a n).length = n := by
  simp [window]

theorem getElem?_window (m : Memory) (a n k : Nat) :
    (m.window a n)[k]? = if k < n then some (m.byte (a + k)) else none := by
  by_cases h : k < n <;> simp [window, h]

@[simp] theorem store_nil (m : Memory) (a : Nat) : m.store a [] = m := rfl

theorem store_cons (m : Memory) (a : Nat) (b : UInt8) (bs : List UInt8) :
    m.store a (b :: bs) = (m.store a [b]).store (a + 1) bs := rfl

theorem byte_store_singleton (m : Memory) (a k : Nat) (b : UInt8) :
    (m.store a [b]).byte k = if k = a ∧ a < Memory.size then b else m.byte k := by
  simp only [store, byte, Vector.getElem?_setIfInBounds]
  by_cases hk : a = k
  · subst hk
    by_cases ha : a < Memory.size
    · simp [ha]
    · simp [ha]
  · simp [hk, Ne.symm hk]

/-- After a store, the bytes of the window are those stored and all others are as before. -/
theorem byte_store (m : Memory) (a : Nat) (bs : List UInt8) (k : Nat) :
    (m.store a bs).byte k =
      if a ≤ k ∧ k < Memory.size then (bs[k - a]?).getD (m.byte k) else m.byte k := by
  induction bs generalizing m a with
  | nil => simp
  | cons b bs ih =>
    rw [store_cons, ih, byte_store_singleton]
    by_cases hk : k < Memory.size
    · rcases Nat.lt_trichotomy k a with h | h | h
      · simp [show ¬ a + 1 ≤ k by omega, show ¬ a ≤ k by omega, show k ≠ a by omega]
      · subst h
        simp [hk, show ¬ k + 1 ≤ k by omega]
      · obtain ⟨d, hd⟩ : ∃ d, k - a = d + 1 := ⟨k - a - 1, by omega⟩
        simp [show a + 1 ≤ k by omega, show a ≤ k by omega, show k ≠ a by omega, hk, hd,
          show k - (a + 1) = d by omega]
    · simp [hk, show ¬ (k = a ∧ a < Memory.size) by omega]

/-- Before and beyond the bytes stored, memory stays as it is. -/
theorem byte_store_of_outside (m : Memory) {a k : Nat} {bs : List UInt8}
    (h : k < a ∨ a + bs.length ≤ k) : (m.store a bs).byte k = m.byte k := by
  rw [byte_store]
  split
  · next hin =>
    rw [List.getElem?_eq_none (by omega)]
    rfl
  · rfl

/-! ### When an access is refused -/

theorem read_of_le (m : Memory) {a n : Nat} (h : a + n ≤ Memory.size) :
    m.read a n = .ok (m.window a n) := if_pos h

theorem read_of_lt (m : Memory) {a n : Nat} (h : Memory.size < a + n) :
    m.read a n = .error (outside a) := if_neg (Nat.not_le.2 h)

theorem write_of_le (m : Memory) {a : Nat} {bs : List UInt8} (h : a + bs.length ≤ Memory.size) :
    m.write a bs = .ok (m.store a bs) := if_pos h

theorem write_of_lt (m : Memory) {a : Nat} {bs : List UInt8} (h : Memory.size < a + bs.length) :
    m.write a bs = .error (outside a) := if_neg (Nat.not_le.2 h)

end Memory

end ChipEight
