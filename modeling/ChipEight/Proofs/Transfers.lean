import ChipEight.Proofs.Recognition
import ChipEight.Proofs.Storage

/-!
# Register blocks in memory

`FX55` writes the registers up to `VX` to memory and `FX65` reads them back, both from the index
register on and both with `VX` included.  So each undoes the other: what is loaded is what was
saved, as far as both blocks reach, and what is saved right after it was loaded is there already.

* `State.saved`, `State.loaded`, `State.digitsSaved`: the states after `FX55`, `FX65` and `FX33`;
* `State.byte_saved`, `State.register_loaded`, `State.register_loaded_of_saved`: what they hold;
* `transfers_undo_each_other`: the main result.
-/

namespace ChipEight

open Opcode

/-! ### Blocks of registers -/

namespace State

variable {s t : State} {v w j : Register} {bs : List UInt8}

/-- The state after the registers up to `v` have been written to memory. -/
def saved (s : State) (v : Register) : State :=
  { s with memory := s.memory.store s.index.toNat (s.firstRegisters v) }.advance

/-- The state after the registers up to `v` have been read from memory. -/
def loaded (s : State) (v : Register) : State :=
  (s.setFirstRegisters (s.memory.window s.index.toNat (v.val + 1))).advance

/-- The state after the digits of `v` have been written to memory. -/
def digitsSaved (s : State) (v : Register) : State :=
  { s with memory := s.memory.store s.index.toNat (decimalDigits (s.register v)) }.advance

/-- The registers that are saved, by their numbers. -/
theorem getElem?_firstRegisters (s : State) (v j : Register) :
    (s.firstRegisters v)[j.val]? = if j ≤ v then some (s.register j) else none := by
  have hj : s.registers.toList[j.val]? = some (s.register j) := by
    rw [Vector.getElem?_toList]
    exact s.register?_eq_some j
  rw [firstRegisters, List.getElem?_take, hj]
  exact if_congr Nat.lt_succ_iff rfl rfl

/-- Registers that have just been loaded are saved as they were read. -/
theorem firstRegisters_setFirstRegisters (h : bs.length = v.val + 1) :
    (s.setFirstRegisters bs).firstRegisters v = bs := by
  refine List.ext_getElem? fun k => ?_
  rcases Nat.lt_or_ge k bs.length with hk | hk
  · have hkv : k ≤ v.val := by omega
    have hj : k < registerCount := Nat.lt_of_le_of_lt hkv v.isLt
    rw [getElem?_firstRegisters _ v ⟨k, hj⟩, if_pos (show (⟨k, hj⟩ : Register) ≤ v from hkv),
      register_setFirstRegisters_eq, List.getElem?_eq_getElem hk]
    rfl
  · rw [List.getElem?_eq_none hk, List.getElem?_eq_none (by rwa [length_firstRegisters, ← h])]

/-! ### States after transfers -/

/-- A saved register is at its place in memory. -/
theorem byte_saved (hfit : s.index.toNat + v.val ≤ 0xFFF) (hj : j ≤ v) :
    (s.saved v).memory.byte (s.index.toNat + j.val) = s.register j := by
  have hsize : s.index.toNat + j.val < Memory.size := by
    have hjv : j.val ≤ v.val := hj
    simp only [Memory.size]
    omega
  show (s.memory.store s.index.toNat (s.firstRegisters v)).byte _ = _
  rw [Memory.byte_store, if_pos ⟨Nat.le_add_right _ _, hsize⟩, Nat.add_sub_cancel_left,
    getElem?_firstRegisters, if_pos hj, Option.getD_some]

/-- Before and beyond the registers that are saved, memory stays as it is. -/
theorem byte_saved_of_outside {k : ℕ} (hk : k < s.index.toNat ∨ s.index.toNat + v.val < k) :
    (s.saved v).memory.byte k = s.memory.byte k := by
  refine Memory.byte_store_of_outside _ ?_
  rw [length_firstRegisters]
  exact hk

/-- A loaded register holds the byte at its place in memory. -/
theorem register_loaded (s : State) (v j : Register) :
    (s.loaded v).register j =
      if j ≤ v then s.memory.byte (s.index.toNat + j.val) else s.register j := by
  show (s.setFirstRegisters (s.memory.window s.index.toNat (v.val + 1))).register j = _
  rw [register_setFirstRegisters_eq, Memory.getElem?_window, if_congr Nat.lt_succ_iff rfl rfl]
  by_cases hj : j ≤ v
  · rw [if_pos hj, if_pos (show j.val ≤ v.val from hj)]
    rfl
  · rw [if_neg hj, if_neg (show ¬ j.val ≤ v.val from hj)]
    rfl

/-- Of the registers that are loaded where some have been saved, those that were saved come back,
and the others come from the old memory. -/
theorem register_loaded_of_saved (hmem : t.memory = (s.saved v).memory) (hindex : t.index = s.index)
    (hfit : s.index.toNat + v.val ≤ 0xFFF) (w j : Register) :
    (t.loaded w).register j =
      if j ≤ w then
        if j ≤ v then s.register j else s.memory.byte (s.index.toNat + j.val)
      else t.register j := by
  rw [register_loaded, hindex, hmem]
  by_cases hj : j ≤ v
  · rw [byte_saved hfit hj, if_pos hj]
  · have hbeyond : s.index.toNat + v.val < s.index.toNat + j.val :=
      Nat.add_lt_add_left (Nat.lt_of_not_le hj) _
    rw [byte_saved_of_outside (.inr hbeyond), if_neg hj]

/-- What was loaded and is saved again is in memory already. -/
theorem memory_saved_loaded (s : State) (v : Register) :
    ((s.loaded v).saved v).memory = s.memory := by
  have hblock : (s.loaded v).firstRegisters v = s.memory.window s.index.toNat (v.val + 1) :=
    firstRegisters_setFirstRegisters (s.memory.length_window _ _)
  show s.memory.store s.index.toNat ((s.loaded v).firstRegisters v) = s.memory
  rw [hblock, Memory.store_window]

/-- The first three registers, loaded where the digits of a register have been written, are its
digits. -/
theorem register_loaded_digits (hfit : s.index.toNat ≤ 0xFFD) (v j : Register) (hj : j ≤ 2) :
    ((s.digitsSaved v).loaded 2).register j = ((decimalDigits (s.register v))[j.val]?).getD 0 := by
  have hlast : j.val < 3 := Nat.lt_succ_of_le hj
  have hsize : s.index.toNat + j.val < Memory.size := by
    simp only [Memory.size]
    omega
  rw [register_loaded, if_pos hj]
  show (s.memory.store s.index.toNat (decimalDigits (s.register v))).byte
    (s.index.toNat + j.val) = _
  rw [Memory.byte_store, if_pos ⟨Nat.le_add_right _ _, hsize⟩, Nat.add_sub_cancel_left,
    List.getElem?_eq_getElem (show j.val < (decimalDigits (s.register v)).length from hlast)]
  rfl

end State

/-- The digits of a byte are digits, and they make up the byte. -/
theorem decimalDigits_spec (v : UInt8) :
    ∃ h t u : UInt8, decimalDigits v = [h, t, u] ∧ h.toNat ≤ 9 ∧ t.toNat ≤ 9 ∧ u.toNat ≤ 9 ∧
      100 * h.toNat + 10 * t.toNat + u.toNat = v.toNat := by
  have hv := v.toNat_lt
  have hhundred : (100 : UInt8).toNat = 100 := rfl
  have hten : (10 : UInt8).toNat = 10 := rfl
  refine ⟨v / 100, v / 10 % 10, v % 10, rfl, ?_⟩
  rw [UInt8.toNat_mod, UInt8.toNat_mod, UInt8.toNat_div, UInt8.toNat_div, hhundred, hten]
  omega

/-! ### The words that transfer blocks -/

section

variable {c : Surroundings} {r : RandomSource} {s t : State} {op op' : UInt16}

theorem execute_of_save (hop : (group op).val = 0xF ∧ byte op = 0x55)
    (hfit : s.index.toNat + (x op).val ≤ 0xFFF) :
    execute c r s op = ⟨.done .proceed (s.saved (x op)), r⟩ :=
  execute_of_accepted (i := .saveRegisters (x op))
    (Instruction.decode?_eq_some_iff.2 ⟨hop.1, hop.2, rfl⟩)
    (State.accessFault?_eq_none_iff.2 (Nat.succ_le_succ hfit))

theorem execute_of_load (hop : (group op).val = 0xF ∧ byte op = 0x65)
    (hfit : s.index.toNat + (x op).val ≤ 0xFFF) :
    execute c r s op = ⟨.done .proceed (s.loaded (x op)), r⟩ :=
  execute_of_accepted (i := .loadRegisters (x op))
    (Instruction.decode?_eq_some_iff.2 ⟨hop.1, hop.2, rfl⟩)
    (State.accessFault?_eq_none_iff.2 (Nat.succ_le_succ hfit))

theorem execute_of_decimal (hop : (group op).val = 0xF ∧ byte op = 0x33)
    (hfit : s.index.toNat ≤ 0xFFD) :
    execute c r s op = ⟨.done .proceed (s.digitsSaved (x op)), r⟩ :=
  execute_of_accepted (i := .decimal (x op))
    (Instruction.decode?_eq_some_iff.2 ⟨hop.1, hop.2, rfl⟩)
    (State.accessFault?_eq_none_iff.2 (Nat.add_le_add_right hfit 3))

/-- Registers that are loaded and saved again leave memory as it was, even if one is refused. -/
theorem executeAll_load_save (hop : (group op).val = 0xF ∧ byte op = 0x65)
    (hop' : (group op').val = 0xF ∧ byte op' = 0x55) (hx : x op' = x op) :
    (s.index.toNat + (x op).val ≤ 0xFFF →
        (executeAll c r s [op, op']).value = .ok [.proceed, .proceed]) ∧
      (executeAll c r s [op, op']).state.memory = s.memory := by
  by_cases hfit : s.index.toNat + (x op).val ≤ 0xFFF
  · have hfit' : (s.loaded (x op)).index.toNat + (x op').val ≤ 0xFFF := by
      rw [hx]
      exact hfit
    rw [executeAll_pair (execute_of_load hop hfit) (execute_of_save hop' hfit')]
    refine ⟨fun _ => rfl, ?_⟩
    rw [hx]
    exact s.memory_saved_loaded (x op)
  · have hd : Instruction.decode? op = some (.loadRegisters (x op)) :=
      Instruction.decode?_eq_some_iff.2 ⟨hop.1, hop.2, rfl⟩
    have hlong : Memory.size < s.index.toNat + ((x op).val + 1) :=
      Nat.succ_lt_succ (Nat.lt_of_not_le hfit)
    have hrefused : (execute c r s op).value = .error (Memory.outside s.index.toNat) := by
      rw [execute_of_decode?_eq_some hd, Instruction.value_execute_eq_error_iff]
      exact State.accessFault?_eq_some_iff.2 ⟨hlong, rfl⟩
    exact ⟨fun h => absurd h hfit,
      congrArg State.memory (state_executeAll_cons_of_fault [op'] hrefused)⟩

/-- The digits of `VX`, written by `FX33`, are what `F265` reads. -/
theorem executeAll_decimal_load (hop : (group op).val = 0xF ∧ byte op = 0x33)
    (hfit : s.index.toNat ≤ 0xFFD) :
    executeAll c r s [op, 0xF265] =
      .done [.proceed, .proceed] ((s.digitsSaved (x op)).loaded 2) := by
  have hload : (group 0xF265).val = 0xF ∧ byte 0xF265 = 0x65 := by decide
  have hfit' : (s.digitsSaved (x op)).index.toNat + 2 ≤ 0xFFF := Nat.add_le_add_right hfit 2
  exact executeAll_pair (execute_of_decimal hop hfit) (execute_of_load hload hfit')

end

/-- **Block transfers undo each other.**  Let the registers up to `VX` fit into memory from the
index register on.  `FX55` then puts each of them at its place and leaves all other memory, the
registers and the index register as they were.  In any state with this memory and this index
register, whatever else it holds, `FX65` gives back the registers that were saved, as far as it
loads them, takes the others that it loads from the old memory, and keeps those that it does not
load.  Conversely, `FX65` and then `FX55` with the same `X` leave memory as it was.  The digits that
`FX33` writes, read by `F265`, are three decimal digits that make up the value of `VX`. -/
theorem transfers_undo_each_other (c : Surroundings) (r : RandomSource) (s : State) :
    (∀ save : UInt16, (group save).val = 0xF ∧ byte save = 0x55 →
      s.index.toNat + (x save).val ≤ 0xFFF →
      let saved := execute c r s save
      saved.value = .ok .proceed ∧
        (∀ j ≤ x save, saved.state.memory.byte (s.index.toNat + j.val) = s.register j) ∧
        (∀ k, k < s.index.toNat ∨ s.index.toNat + (x save).val < k →
          saved.state.memory.byte k = s.memory.byte k) ∧
        saved.state.registers = s.registers ∧ saved.state.index = s.index ∧
        ∀ (c' : Surroundings) (r' : RandomSource) (t : State) (load : UInt16),
          t.memory = saved.state.memory → t.index = saved.state.index →
          (group load).val = 0xF ∧ byte load = 0x65 →
          s.index.toNat + (x load).val ≤ 0xFFF →
          let loaded := execute c' r' t load
          loaded.value = .ok .proceed ∧
            ∀ j, loaded.state.register j =
              if j ≤ x load then
                if j ≤ x save then s.register j else s.memory.byte (s.index.toNat + j.val)
              else t.register j) ∧
      (∀ load save : UInt16, (group load).val = 0xF ∧ byte load = 0x65 →
        (group save).val = 0xF ∧ byte save = 0x55 → x save = x load →
        (s.index.toNat + (x load).val ≤ 0xFFF →
          (executeAll c r s [load, save]).value = .ok [.proceed, .proceed]) ∧
          (executeAll c r s [load, save]).state.memory = s.memory) ∧
      ∀ decimal : UInt16, (group decimal).val = 0xF ∧ byte decimal = 0x33 → s.index.toNat ≤ 0xFFD →
        let digits := executeAll c r s [decimal, 0xF265]
        digits.value = .ok [.proceed, .proceed] ∧
          ∃ h t u : UInt8, digits.state.register 0 = h ∧ digits.state.register 1 = t ∧
            digits.state.register 2 = u ∧ h.toNat ≤ 9 ∧ t.toNat ≤ 9 ∧ u.toNat ≤ 9 ∧
            100 * h.toNat + 10 * t.toNat + u.toNat = (s.register (x decimal)).toNat := by
  refine ⟨fun save hsave hfit => ?_, fun load save => executeAll_load_save,
    fun decimal hdecimal hfit => ?_⟩
  · rw [execute_of_save hsave hfit]
    refine ⟨rfl, fun j hj => State.byte_saved hfit hj,
      fun k hk => State.byte_saved_of_outside hk, rfl, rfl, ?_⟩
    intro c' r' t load hmem hindex hload hfit'
    have hfit'' : t.index.toNat + (x load).val ≤ 0xFFF := hindex ▸ hfit'
    rw [execute_of_load hload hfit'']
    exact ⟨rfl, State.register_loaded_of_saved hmem hindex hfit (x load)⟩
  · rw [executeAll_decimal_load hdecimal hfit]
    obtain ⟨h, t, u, hdigits, hh, ht, hu, hsum⟩ := decimalDigits_spec (s.register (x decimal))
    have hread : ∀ j : Register, j ≤ 2 →
        ((s.digitsSaved (x decimal)).loaded 2).register j = ([h, t, u][j.val]?).getD 0 := by
      intro j hj
      rw [State.register_loaded_digits hfit (x decimal) j hj, hdigits]
    exact ⟨rfl, h, t, u, hread 0 (by decide), hread 1 (by decide), hread 2 (by decide), hh, ht, hu,
      hsum⟩

/-- A state whose index register leaves room for three bytes, and two registers to save there. -/
def lastBlock : State :=
  { State.initial with index := 0xFFD }.setFirstRegisters [255, 0xAB]

/-- Two registers saved in the last three bytes of memory, and three loaded in another state: the
third comes from memory, the fourth is kept.  The digits of 255 fill the last three bytes. -/
theorem transfers_undo_each_other_at_end :
    let c : Surroundings := ⟨{}, fun _ => false⟩
    let r := RandomSource.ofSeed 0
    let saved := execute c r lastBlock 0xF155
    let t := { saved.state with registers := Vector.replicate registerCount 7, stack := [0x202] }
    let loaded := execute c r t 0xF265
    let digits := executeAll c r lastBlock [0xF033, 0xF265]
    lastBlock.index.toNat + (x 0xF265).val ≤ 0xFFF ∧
      saved.value = .ok .proceed ∧ loaded.value = .ok .proceed ∧
      loaded.state.register 0 = 255 ∧ loaded.state.register 1 = 0xAB ∧
      loaded.state.register 2 = 0 ∧ loaded.state.register 3 = 7 ∧
      (executeAll c r lastBlock [0xF265, 0xF255]).state.memory = lastBlock.memory ∧
      digits.value = .ok [.proceed, .proceed] ∧
      ∃ h t u : UInt8, digits.state.register 2 = u ∧
        100 * h.toNat + 10 * t.toNat + u.toNat = 255 := by
  intro c r saved t loaded digits
  obtain ⟨hsave, hboth, hdigits⟩ := transfers_undo_each_other c r lastBlock
  obtain ⟨hsaved, -, -, -, -, hload⟩ := hsave 0xF155 (by decide) (by decide +kernel)
  obtain ⟨hloaded, hregister⟩ := hload c r t 0xF265 rfl rfl (by decide) (by decide +kernel)
  obtain ⟨-, hmemory⟩ := hboth 0xF265 0xF255 (by decide) (by decide) (by decide)
  obtain ⟨hvalue, h, d, u, -, -, hu, -, -, -, hsum⟩ :=
    hdigits 0xF033 (by decide) (by decide +kernel)
  exact ⟨by decide +kernel, hsaved, hloaded, (hregister 0).trans (by decide +kernel),
    (hregister 1).trans (by decide +kernel), (hregister 2).trans (by decide +kernel),
    (hregister 3).trans (by decide +kernel), hmemory, hvalue, h, d, u, hu, hsum⟩

end ChipEight
