import ChipEight.Proofs.Storage

/-!
# Checks on arrays and memory

A slice inside an array and a copy of the right length are what their names say, so the checked
accesses to memory find and leave what the others do; no check of theirs fails, whatever the
address.

* `Checked.slice?_of_le`, `Checked.copyInto?_of_le`: when the checks hold;
* `State.checkedRead?_eq`, `State.checkedWrite?_eq`, `State.checkedFetch?_eq`: memory;
* `State.slice?_registers`, `State.copyInto?_registers`: the first registers;
* `Checked.copyInto?_bind_slice?`: bytes put into a buffer of zeros and taken out again;
* `memory_all_or_nothing`: what all accesses to memory have in common.
-/

namespace ChipEight

namespace Checked

variable {α : Type} {size : ℕ}

theorem guard_of {p : Prop} [Decidable p] (h : p) : (guard p : Option Unit) = some () := if_pos h

theorem sub?_of_le {a b : ℕ} (h : b ≤ a) : sub? a b = some (a - b) := if_pos h

theorem slice?_of_le (xs : Vector α size) {i j : ℕ} (hij : i ≤ j) (hj : j ≤ size) :
    slice? xs i j = some ((xs.toList.drop i).take (j - i)) := if_pos ⟨hij, hj⟩

theorem copyInto?_of_le (xs : Vector α size) {i j : ℕ} {ys : List α} (hij : i ≤ j) (hj : j ≤ size)
    (hys : ys.length = j - i) :
    copyInto? xs i j ys =
      some (xs.mapIdx fun k v => if i ≤ k then (ys[k - i]?).getD v else v) := if_pos ⟨hij, hj, hys⟩

/-- What is copied to the beginning of an array can be taken out again. -/
theorem copyInto?_bind_slice? (xs : Vector α size) {ys : List α} {n : ℕ} (hys : ys.length = n)
    (h : n ≤ size) {β : Type} (f : List α → Option β) :
    ((copyInto? xs 0 n ys).bind fun buffer => (slice? buffer 0 n).bind f) = f ys := by
  subst hys
  rw [copyInto?_of_le xs (Nat.zero_le _) h (Nat.sub_zero _).symm, Option.bind_some,
    slice?_of_le _ (Nat.zero_le _) h, Option.bind_some]
  refine congrArg f (List.ext_getElem? fun k => ?_)
  rw [List.drop_zero, Nat.sub_zero, List.getElem?_take]
  by_cases hk : k < ys.length
  · have hsize : k < size := Nat.lt_of_lt_of_le hk h
    simp [hk, hsize]
  · rw [if_neg hk, List.getElem?_eq_none (Nat.le_of_not_lt hk)]

end Checked

open Checked

/-! ### Memory -/

namespace Memory

variable {m : Memory} {a n : ℕ} {bs : List UInt8}

theorem slice?_bytes (h : a + n ≤ Memory.size) :
    slice? m.bytes a (a + n) = some (m.window a n) := by
  rw [slice?_of_le m.bytes (Nat.le_add_right a n) h, Nat.add_sub_cancel_left]
  refine congrArg some (List.ext_getElem? fun k => ?_)
  rw [List.getElem?_take, List.getElem?_drop, getElem?_window]
  by_cases hk : k < n
  · have hsize : a + k < Memory.size := by omega
    simp [hk, hsize, byte]
  · rw [if_neg hk, if_neg hk]

theorem copyInto?_bytes (h : a + bs.length ≤ Memory.size) :
    copyInto? m.bytes a (a + bs.length) bs = some (m.store a bs).bytes := by
  rw [copyInto?_of_le m.bytes (Nat.le_add_right a _) h (Nat.add_sub_cancel_left ..).symm]
  refine congrArg some (congrArg Memory.bytes (?_ : Memory.mk _ = m.store a bs))
  ext k hk
  rw [byte_store]
  by_cases hak : a ≤ k
  · simp [byte, hk, hak]
  · simp [byte, hk, hak]

end Memory

namespace State

variable {s : State}

/-- A checked read is a read. -/
theorem checkedRead?_eq (s : State) (a n : UInt64) :
    s.checkedRead? a n = some (s.read a.toNat n.toNat).value := by
  unfold checkedRead?
  rw [Memory.endWord?_eq]
  by_cases h : a.toNat + n.toNat ≤ Memory.size
  · have hstop : (a + n).toNat = a.toNat + n.toNat := by
      rw [UInt64.toNat_add]
      exact Nat.mod_eq_of_lt (Nat.lt_of_le_of_lt h (by decide))
    rw [if_pos h, s.read_of_le h]
    show (slice? s.memory.bytes a.toNat (a + n).toNat).map _ = _
    rw [hstop, Memory.slice?_bytes h]
    rfl
  · rw [if_neg h, s.read_of_lt (Nat.lt_of_not_le h)]

/-- A checked write is a write. -/
theorem checkedWrite?_eq (s : State) (a : UInt64) {bs : List UInt8}
    (hbs : bs.length < UInt64.size) :
    s.checkedWrite? a bs = some (s.write a.toNat bs) := by
  have hlength : (UInt64.ofNat bs.length).toNat = bs.length := UInt64.toNat_ofNat_of_lt' hbs
  unfold checkedWrite?
  rw [Memory.endWord?_eq, hlength]
  by_cases h : a.toNat + bs.length ≤ Memory.size
  · have hstop : (a + .ofNat bs.length).toNat = a.toNat + bs.length := by
      rw [UInt64.toNat_add, hlength]
      exact Nat.mod_eq_of_lt (Nat.lt_of_le_of_lt h (by decide))
    rw [if_pos h, s.write_of_le h]
    show (copyInto? s.memory.bytes a.toNat (a + .ofNat bs.length).toNat bs).map _ = _
    rw [hstop, Memory.copyInto?_bytes h]
    rfl
  · rw [if_neg h, s.write_of_lt (Nat.lt_of_not_le h)]

/-- A checked fetch is a fetch. -/
theorem checkedFetch?_eq (s : State) : s.checkedFetch? = some s.fetch := by
  have hread : s.checkedRead? s.pc.toUInt64 2 = some (s.read s.pc.toNat 2).value := by
    rw [checkedRead?_eq, UInt16.toNat_toUInt64]
    rfl
  unfold checkedFetch?
  rw [hread]
  cases h : (s.read s.pc.toNat 2).value with
  | error e =>
    rw [fetch_of_read_error h]
    rfl
  | ok bs =>
    have hfetch := s.fetch_eq
    obtain ⟨high, low, op, rfl, -, -⟩ := fetch_of_read_ok h
    rw [hfetch, h]
    rfl

/-! ### Registers -/

theorem slice?_registers (s : State) (v : Register) :
    slice? s.registers 0 (v.val + 1) = some (s.firstRegisters v) :=
  slice?_of_le s.registers (Nat.zero_le _) v.isLt

theorem copyInto?_registers (s : State) {bs : List UInt8} {n : ℕ} (hbs : bs.length = n)
    (h : n ≤ registerCount) :
    copyInto? s.registers 0 n bs = some (s.setFirstRegisters bs).registers :=
  copyInto?_of_le s.registers (Nat.zero_le _) h (hbs.trans (Nat.sub_zero _).symm)

end State

/-- **Memory is all or nothing.**  A write succeeds if its window ends inside the memory, start and
length being added without a bound, and is otherwise refused with the larger of its start and 4096,
changing nothing; a read likewise.  Words of 64 bits added with an eye on the carry find the same
windows, and slices and copies that end where this sum does are these reads and writes.  After a
write that succeeds nothing but the memory has changed, and every read finds the bytes written
inside the window and the old ones outside.  A word is fetched by a read of two bytes, the high one
first, and a program is loaded by a write at 0x200: so it is refused if it is longer than 3584
bytes, what lies before it stays, and a second program is laid over the first. -/
theorem memory_all_or_nothing (s : State) (a : ℕ) (bs : List UInt8) :
    let t := s.write a bs
    (a + bs.length ≤ 4096 → t.value = .ok ()) ∧
      (4096 < a + bs.length → t = ⟨.error (.outOfBounds (max a 4096)), s⟩) ∧
      (∀ n, (a + n ≤ 4096 → ∃ w, s.read a n = .done w s ∧ w.length = n) ∧
        (4096 < a + n → s.read a n = ⟨.error (.outOfBounds (max a 4096)), s⟩)) ∧
      (∀ b n : UInt64, Memory.endWord? b n = none ↔ 4096 < b.toNat + n.toNat) ∧
      ((∀ b n : UInt64, s.checkedRead? b n = some (s.read b.toNat n.toNat).value) ∧
        ∀ (b : UInt64) (cs : List UInt8), cs.length < UInt64.size →
          s.checkedWrite? b cs = some (s.write b.toNat cs)) ∧
      (t.value = .ok () →
        t.state = { s with memory := t.state.memory } ∧
          ∀ b n, b + n ≤ 4096 → ∃ old new, s.read b n = .done old s ∧
            t.state.read b n = .done new t.state ∧ new.length = n ∧
            ∀ k < n, new[k]? =
              if a ≤ b + k ∧ b + k < a + bs.length then bs[b + k - a]? else old[k]?) ∧
      ((∀ e, (s.read s.pc.toNat 2).value = .error e → s.fetch = .error e) ∧
        ∀ w, (s.read s.pc.toNat 2).value = .ok w →
          ∃ hi lo op, w = [hi, lo] ∧ s.fetch = .ok op ∧
            op.toNat = 256 * hi.toNat + lo.toNat) ∧
      (∀ rom, s.loadProgram rom = s.write 0x200 rom ∧
        ((s.loadProgram rom).value = .ok () ↔ rom.length ≤ 3584) ∧
        ∀ k < 0x200, (s.loadProgram rom).state.memory.byte k = s.memory.byte k) ∧
      ∀ rom rom', rom.length ≤ 3584 → rom'.length ≤ 3584 →
        (s.loadProgram rom).state.loadProgram rom' =
          s.loadProgram (rom' ++ rom.drop rom'.length) := by
  intro t
  refine ⟨fun h => ?_, s.write_of_lt, fun n => ⟨fun h => ?_, s.read_of_lt⟩,
    Memory.endWord?_eq_none_iff, ⟨s.checkedRead?_eq, fun b _ => s.checkedWrite?_eq b⟩,
    fun hok => ?_, ⟨fun e => State.fetch_of_read_error, fun w => State.fetch_of_read_ok⟩,
    fun rom => ⟨rfl, State.value_loadProgram_eq_ok_iff, fun k =>
      State.byte_loadProgram_of_lt_start⟩,
    fun rom rom' => State.loadProgram_loadProgram⟩
  · show (s.write a bs).value = .ok ()
    rw [s.write_of_le h]
    rfl
  · exact ⟨_, s.read_of_le h, Memory.length_window ..⟩
  · have hle : a + bs.length ≤ Memory.size := by
      refine Nat.le_of_not_lt fun hlong => ?_
      have hrefused : t = _ := s.write_of_lt hlong
      rw [hrefused] at hok
      cases hok
    refine ⟨?_, fun b n hb => State.read_write_of_le hle hb⟩
    have hdone : t = _ := s.write_of_le hle
    rw [hdone]
    rfl

/-- An empty write fits at the end of memory and not beyond it, and no sum of words passes for an
end of a window.  Of two bytes written at the end, a read one byte further down finds the first
after a byte from before. -/
theorem memory_all_or_nothing_at_end :
    let s := State.initial
    let t := s.write 0xFFE [0xAB, 0xCD]
    (s.write 4096 []).value = .ok () ∧
      s.write 4097 [] = ⟨.error (.outOfBounds 4097), s⟩ ∧
      Memory.endWord? 0xFFFFFFFFFFFFFFFF 2 = none ∧
      s.checkedWrite? 0xFFFFFFFFFFFFFFFF [0xAB, 0xCD] =
        some ⟨.error (.outOfBounds 0xFFFFFFFFFFFFFFFF), s⟩ ∧
      t.value = .ok () ∧
      ∃ old new, s.read 0xFFD 2 = .done old s ∧ t.state.read 0xFFD 2 = .done new t.state ∧
        new.length = 2 ∧ new[0]? = old[0]? ∧ new[1]? = some 0xAB := by
  intro s t
  obtain ⟨hfits, -, -, hend, ⟨-, hwrite⟩, -⟩ := memory_all_or_nothing s 4096 []
  obtain ⟨-, hbeyond, -⟩ := memory_all_or_nothing s 4097 []
  obtain ⟨hwritten, -, -, -, -, hread, -⟩ := memory_all_or_nothing s 0xFFE [0xAB, 0xCD]
  obtain ⟨-, hcarry, -⟩ := memory_all_or_nothing s 0xFFFFFFFFFFFFFFFF [0xAB, 0xCD]
  have ht : t.value = .ok () := hwritten (by decide)
  obtain ⟨old, new, hold, hnew, hlength, hbytes⟩ := (hread ht).2 0xFFD 2 (by decide)
  exact ⟨hfits (by decide), hbeyond (by decide),
    (hend 0xFFFFFFFFFFFFFFFF 2).2 (by decide),
    (hwrite 0xFFFFFFFFFFFFFFFF _ (by decide)).trans (congrArg some (hcarry (by decide))), ht, old,
    new, hold, hnew, hlength, hbytes 0 (by decide), hbytes 1 (by decide)⟩

end ChipEight
