import ChipEight.Checked
import ChipEight.Proofs.Execution
import Mathlib.Data.Nat.Notation
import Mathlib.Logic.Basic

/-!
# Memory as a store

An access succeeds as a whole or is refused as a whole, and a read finds what the writes before it
have left, however their windows overlap.  Fetching a word and loading a program are such accesses.

* `Memory.endWord?_eq`: the end of a window, found by adding words of 64 bits;
* `Memory.getElem?_window_store`, `Memory.store_store`: reading after writing, writing after
  writing;
* `Memory.window_store`, `Memory.store_window`: a window that has just been written, and one that is
  written over itself;
* `State.fetch_eq`: a word is two bytes, the high one first;
* `State.loadProgram_loadProgram`: of two programs, the second is laid over the first.
-/

namespace ChipEight

namespace Memory

variable {m : Memory} {a b n k : ℕ} {bs cs : List UInt8}

/-! ### The end of a window in words -/

/-- Adding words finds the same windows inside the memory as adding without a bound. -/
theorem endWord?_eq (a n : UInt64) :
    endWord? a n = if a.toNat + n.toNat ≤ Memory.size then some (a + n) else none := by
  have ha := a.toNat_lt
  have hn := n.toNat_lt
  have hsize : Memory.size = 4096 := rfl
  have hsum : (a + n).toNat = (a.toNat + n.toNat) % 2 ^ 64 := UInt64.toNat_add a n
  have hcarry : a + n < a ↔ 2 ^ 64 ≤ a.toNat + n.toNat := by
    rw [UInt64.lt_iff_toNat_lt, hsum]
    omega
  have hend : a + n ≤ .ofNat Memory.size ↔ (a + n).toNat ≤ Memory.size :=
    UInt64.le_iff_toNat_le
  unfold endWord?
  by_cases hc : a + n < a
  · have hpast := hcarry.1 hc
    rw [if_pos hc, if_neg (by omega)]
  · have hfits := mt hcarry.2 hc
    rw [if_neg hc]
    exact if_congr (hend.trans (by omega)) rfl rfl

theorem endWord?_eq_none_iff (a n : UInt64) :
    endWord? a n = none ↔ Memory.size < a.toNat + n.toNat := by
  rw [endWord?_eq, ite_eq_right_iff, ← Nat.not_le]
  exact forall_congr' fun _ => iff_of_false (Option.some_ne_none _) id

/-! ### Reading after writing -/

/-- Inside the window that was written a read finds the bytes written, outside the old ones. -/
theorem getElem?_window_store (hb : b + n ≤ Memory.size) (hk : k < n) :
    ((m.store a bs).window b n)[k]? =
      if a ≤ b + k ∧ b + k < a + bs.length then bs[b + k - a]? else (m.window b n)[k]? := by
  rw [getElem?_window, getElem?_window, if_pos hk, if_pos hk]
  by_cases hin : a ≤ b + k ∧ b + k < a + bs.length
  · have hsize : b + k < Memory.size := by omega
    have hget : b + k - a < bs.length := by omega
    rw [if_pos hin, byte_store, if_pos ⟨hin.1, hsize⟩, List.getElem?_eq_getElem hget]
    rfl
  · rw [if_neg hin, byte_store_of_outside m (by omega)]

/-- Two writes from the same address on are one: the second laid over the first. -/
theorem store_store (m : Memory) (a : ℕ) (bs cs : List UInt8) :
    (m.store a bs).store a cs = m.store a (cs ++ bs.drop cs.length) := by
  ext k _
  rw [byte_store, byte_store, byte_store]
  split
  · rcases Nat.lt_or_ge (k - a) cs.length with hcs | hcs
    · rw [List.getElem?_append_left hcs, List.getElem?_eq_getElem hcs]
      rfl
    · rw [List.getElem?_eq_none hcs, List.getElem?_append_right hcs, List.getElem?_drop,
        Nat.add_sub_cancel' hcs]
      rfl
  · rfl

/-- A window that has just been written holds what was written. -/
theorem window_store (m : Memory) (h : a + bs.length ≤ Memory.size) :
    (m.store a bs).window a bs.length = bs := by
  refine List.ext_getElem? fun k => ?_
  rcases Nat.lt_or_ge k bs.length with hk | hk
  · rw [getElem?_window_store h hk, if_pos ⟨Nat.le_add_right a k, by omega⟩,
      Nat.add_sub_cancel_left]
  · rw [getElem?_window, if_neg (Nat.not_lt.2 hk), List.getElem?_eq_none hk]

/-- A window written over itself leaves memory as it was. -/
theorem store_window (m : Memory) (a n : ℕ) : m.store a (m.window a n) = m := by
  ext k _
  rw [byte_store]
  split
  · next hin =>
    rw [getElem?_window, Nat.add_sub_cancel' hin.1]
    split <;> rfl
  · rfl

end Memory

/-! ### Fetching and loading -/

namespace State

variable {s : State}

/-- A word is fetched by reading two bytes; the first is the high one. -/
theorem fetch_eq (s : State) :
    s.fetch = (s.read s.pc.toNat 2).value.map fun bs : List UInt8 =>
      (bs.getD 0 0).toUInt16 <<< 8 ||| (bs.getD 1 0).toUInt16 := by
  unfold fetch
  rcases Nat.lt_or_ge Memory.size (s.pc.toNat + 2) with h | h
  · have hrefused : s.memory.read s.pc.toNat opcodeSize = .error _ := s.memory.read_of_lt h
    rw [hrefused, s.read_of_lt h]
    rfl
  · have hread : s.memory.read s.pc.toNat opcodeSize = .ok _ := s.memory.read_of_le h
    rw [hread, s.read_of_le h]
    rfl

/-- A high and a low byte make a word. -/
theorem toNat_highLow (hi lo : UInt8) :
    (hi.toUInt16 <<< 8 ||| lo.toUInt16).toNat = 256 * hi.toNat + lo.toNat := by
  have hhi := hi.toNat_lt
  have hshift : (hi.toUInt16 <<< 8).toNat = 2 ^ 8 * hi.toNat := by
    rw [UInt16.toNat_shiftLeft, UInt8.toNat_toUInt16]
    show hi.toNat <<< 8 % 65536 = 2 ^ 8 * hi.toNat
    rw [Nat.shiftLeft_eq]
    omega
  rw [UInt16.toNat_or, hshift, UInt8.toNat_toUInt16, ← Nat.two_pow_add_eq_or_of_lt lo.toNat_lt]

theorem loadProgram_of_le {rom : List UInt8} (h : rom.length ≤ Program.maxSize) :
    s.loadProgram rom = .done () { s with memory := s.memory.store Program.start rom } :=
  s.write_of_le (by simp only [Program.maxSize, Program.start, Memory.size] at h ⊢; omega)

theorem loadProgram_of_lt {rom : List UInt8} (h : Program.maxSize < rom.length) :
    s.loadProgram rom = ⟨.error (Memory.outside Program.start), s⟩ :=
  s.write_of_lt (by simp only [Program.maxSize, Program.start, Memory.size] at h ⊢; omega)

/-- What a write that is not refused leaves, seen by reading. -/
theorem read_write_of_le {a b n : ℕ} {bs : List UInt8} (ha : a + bs.length ≤ Memory.size)
    (hb : b + n ≤ Memory.size) :
    ∃ old new, s.read b n = .done old s ∧
      (s.write a bs).state.read b n = .done new (s.write a bs).state ∧ new.length = n ∧
      ∀ k < n, new[k]? =
        if a ≤ b + k ∧ b + k < a + bs.length then bs[b + k - a]? else old[k]? := by
  refine ⟨_, _, s.read_of_le hb, State.read_of_le _ hb, Memory.length_window .., fun k hk => ?_⟩
  rw [s.write_of_le ha]
  exact Memory.getElem?_window_store hb hk

theorem fetch_of_read_ok {bs : List UInt8} (h : (s.read s.pc.toNat 2).value = .ok bs) :
    ∃ hi lo op, bs = [hi, lo] ∧ s.fetch = .ok op ∧ op.toNat = 256 * hi.toNat + lo.toNat := by
  rcases Nat.lt_or_ge Memory.size (s.pc.toNat + 2) with hout | hin
  · rw [s.read_of_lt hout] at h
    cases h
  · rw [s.read_of_le hin] at h
    obtain rfl : s.memory.window s.pc.toNat 2 = bs := Except.ok.inj h
    refine ⟨s.memory.byte s.pc.toNat, s.memory.byte (s.pc.toNat + 1), _, rfl, ?_, toNat_highLow ..⟩
    rw [fetch_eq, s.read_of_le hin]
    rfl

theorem fetch_of_read_error {e : Fault} (h : (s.read s.pc.toNat 2).value = .error e) :
    s.fetch = .error e := by
  rw [fetch_eq, h]
  rfl

theorem value_loadProgram_eq_ok_iff {rom : List UInt8} :
    (s.loadProgram rom).value = .ok () ↔ rom.length ≤ Program.maxSize := by
  rcases Nat.lt_or_ge Program.maxSize rom.length with h | h
  · rw [loadProgram_of_lt h]
    exact iff_of_false (fun he => nomatch he) (Nat.not_le.2 h)
  · rw [loadProgram_of_le h]
    exact iff_of_true rfl h

theorem byte_loadProgram_of_lt_start {rom : List UInt8} {k : ℕ} (hk : k < Program.start) :
    (s.loadProgram rom).state.memory.byte k = s.memory.byte k := by
  rcases Nat.lt_or_ge Program.maxSize rom.length with h | h
  · rw [loadProgram_of_lt h]
  · rw [loadProgram_of_le h]
    exact Memory.byte_store_of_outside _ (.inl hk)

/-- Of two programs loaded one after the other, the second is laid over the first. -/
theorem loadProgram_loadProgram {rom rom' : List UInt8} (h : rom.length ≤ Program.maxSize)
    (h' : rom'.length ≤ Program.maxSize) :
    (s.loadProgram rom).state.loadProgram rom' =
      s.loadProgram (rom' ++ rom.drop rom'.length) := by
  have hboth : (rom' ++ rom.drop rom'.length).length ≤ Program.maxSize := by
    rw [List.length_append, List.length_drop]
    omega
  rw [loadProgram_of_le h, loadProgram_of_le hboth, ← Memory.store_store]
  exact loadProgram_of_le h'

end State

end ChipEight
