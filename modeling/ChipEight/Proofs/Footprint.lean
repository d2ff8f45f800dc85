import ChipEight.Proofs.Displays
import ChipEight.Proofs.Nesting
import ChipEight.Proofs.RandomWords
import ChipEight.Proofs.Timers

/-!
# The footprint of an instruction

Each word that is executed without a fault changes few parts of the state, and which ones can be
read off its digits.  What it changes of the registers and of memory is said first of instructions,
then of words; the counter after a word and what the word asks for are computed from the word and
the state before it.

* `Instruction.writes`, `Instruction.stored`: the registers that an instruction may change, and the
  number of bytes that it puts into memory at the index register;
* `Instruction.register_after`, `Instruction.byte_after`: everything else stays as it is;
* `Opcode.mayChange`, `Opcode.nextPc`, `Opcode.effect`: the same in terms of words;
* `execute_footprint`: the main result.
-/

namespace ChipEight

open Opcode

/-! ### Registers and memory -/

/-- Whether an operation tells in VF how it went. -/
def Arithmetic.setsFlag : Arithmetic → Bool
  | copy | or | and | xor => false
  | add | subtract | shiftRight | subtractFrom | shiftLeft => true

theorem Arithmetic.register_apply {d : Dialect} {s : State} {v w u : Register} (o : Arithmetic)
    (hv : u ≠ v) (hf : o.setsFlag = true → u ≠ flagRegister) :
    (o.apply d s v w).register u = s.register u := by
  have hset : ∀ (s : State) (b : UInt8), (s.setRegister v b).register u = s.register u :=
    fun s b => s.register_setRegister_of_ne b hv.symm
  cases o with
  | copy | or | and | xor => exact hset _ _
  | subtractFrom =>
    exact (State.register_setRegister_of_ne _ _ (hf rfl).symm).trans (hset _ _)
  | add | subtract | shiftRight | shiftLeft =>
    exact (hset _ _).trans (s.register_setRegister_of_ne _ (hf rfl).symm)

theorem State.register_setFirstRegisters (s : State) {bs : List UInt8} {u : Register}
    (h : bs.length ≤ u.val) : (s.setFirstRegisters bs).register u = s.register u := by
  rw [register_setFirstRegisters_eq, List.getElem?_eq_none h]
  rfl

namespace Instruction

variable {c : Surroundings} {r : RandomSource} {s : State} {i : Instruction}

/-- The registers that an instruction may change. -/
def writes (u : Register) : Instruction → Prop
  | load v _ | addByte v _ | random v _ | readDelay v => u = v
  | arithmetic o v _ => u = v ∨ u = flagRegister ∧ o.setsFlag = true
  | draw .. => u = flagRegister
  | loadRegisters last => u ≤ last
  | _ => False

/-- The number of bytes that an instruction puts into memory at the index register. -/
def stored : Instruction → ℕ
  | decimal _ => 3
  | saveRegisters last => last.val + 1
  | _ => 0

theorem register_after {u : Register} (h : ¬ i.writes u) :
    (i.after c r s).register u = s.register u := by
  cases i with
  | load v b | addByte v b | random v b | readDelay v =>
    exact s.register_setRegister_of_ne _ (Ne.symm h)
  | arithmetic o v w =>
    simp only [writes, not_or, not_and] at h
    exact o.register_apply h.1 fun ho hu => h.2 hu ho
  | draw v w rows => exact State.register_setRegister_of_ne _ _ (Ne.symm h)
  | loadRegisters last =>
    refine s.register_setFirstRegisters ?_
    rw [Memory.length_window]
    exact Nat.lt_of_not_le h
  | skip condition => rw [after_skip]; rfl
  | _ => rfl

theorem memory_after_of_stored (h : i.stored = 0) : (i.after c r s).memory = s.memory := by
  cases i with
  | decimal v => cases h
  | saveRegisters last => cases h
  | skip condition => rw [after_skip]
  | arithmetic o v w => rw [after_arithmetic]
  | _ => rfl

/-- Outside the window that an instruction writes, memory stays as it is. -/
theorem byte_after {k : ℕ} (h : k < s.index.toNat ∨ s.index.toNat + i.stored ≤ k) :
    (i.after c r s).memory.byte k = s.memory.byte k := by
  cases i with
  | decimal v => exact Memory.byte_store_of_outside _ h
  | saveRegisters last =>
    exact Memory.byte_store_of_outside _ (by rwa [State.length_firstRegisters])
  | _ => rw [memory_after_of_stored rfl]

end Instruction

/-! ### What the digits of a word say -/

namespace Opcode

/-- The registers that a word may change. -/
def mayChange (op : UInt16) (u : Register) : Prop :=
  match (group op).val with
  | 0x6 | 0x7 | 0xC => u = x op
  | 0x8 => u = x op ∨ u = flagRegister ∧ (n op).val ∈ [0x4, 0x5, 0x6, 0x7, 0xE]
  | 0xD => u = flagRegister
  | 0xF => byte op = 0x07 ∧ u = x op ∨ byte op = 0x65 ∧ u ≤ x op
  | _ => False

/-- Whether a skip passes over the next instruction; `none` for a word that is no skip. -/
def skips? (c : Surroundings) (s : State) (op : UInt16) : Option Bool :=
  match (group op).val with
  | 0x3 => some (decide (s.register (x op) = byte op))
  | 0x4 => some (decide (s.register (x op) ≠ byte op))
  | 0x5 => some (decide (s.register (x op) = s.register (y op)))
  | 0x9 => some (decide (s.register (x op) ≠ s.register (y op)))
  | 0xE =>
      let key : UInt8 :=
        match c.dialect.keySelector with
        | .digit => .ofNat (x op).val
        | .register => s.register (x op)
      some (if byte op = 0x9E then c.keys key else !c.keys key)
  | _ => none

/-- The program counter after a word. -/
def nextPc (c : Surroundings) (s : State) (op : UInt16) : ℕ :=
  match (group op).val with
  | 0x0 =>
      if op = 0x00EE then (s.stack.headD 0).toNat % 4096
      else if (y op).val = 1 then s.pc.toNat
      else (s.pc.toNat + 2) % 65536
  | 0x1 | 0x2 => op.toNat % 4096
  | 0xB => op.toNat % 256 + (s.register (x op)).toNat
  | _ => (s.pc.toNat + if skips? c s op = some true then 4 else 2) % 65536

/-- What a word asks for. -/
def effect (op : UInt16) : Effect :=
  if op = 0x00E0 ∨ (group op).val = 0xD then .redraw
  else if (group op).val = 0x0 ∧ (y op).val = 1 then .exit (n op)
  else .proceed

section

variable {c : Surroundings} {s : State} {op : UInt16}

theorem nextPc_of_skips? {on : Bool} (h : skips? c s op = some on) :
    nextPc c s op = (s.pc.toNat + if on = true then 4 else 2) % 65536 := by
  unfold nextPc
  rw [h]
  unfold skips? at h
  split <;> simp_all

/-- Words of the groups that neither jump nor skip lead to the next one. -/
theorem nextPc_of_plain
    (h : (group op).val ∉ [0x0, 0x1, 0x2, 0x3, 0x4, 0x5, 0x9, 0xB, 0xE]) :
    nextPc c s op = (s.pc.toNat + 2) % 65536 := by
  simp only [List.mem_cons, List.not_mem_nil, or_false, not_or] at h
  unfold nextPc skips?
  split <;> simp_all

theorem effect_of_plain (h : (group op).val ≠ 0x0) (h' : (group op).val ≠ 0xD) :
    effect op = .proceed := by
  have hop : ¬ (op = 0x00E0 ∨ (group op).val = 0xD) := by
    rintro (rfl | hd)
    · exact h rfl
    · exact h' hd
  exact (if_neg hop).trans (if_neg fun hexit => h hexit.1)

end

end Opcode

theorem Arithmetic.mem_of_setsFlag {k : ℕ} {o : Arithmetic} (h : Instruction.arithmetic? k = some o)
    (hf : o.setsFlag = true) : k ∈ [0x4, 0x5, 0x6, 0x7, 0xE] := by
  unfold Instruction.arithmetic? at h
  split at h <;> cases h <;> cases hf <;> simp

namespace Instruction

variable {c : Surroundings} {r : RandomSource} {s : State} {i : Instruction} {op : UInt16}

theorem mayChange_of_writes {u : Register} (hd : decode? op = some i) (h : i.writes u) :
    mayChange op u := by
  have he := decode?_eq_some_iff.1 hd
  unfold mayChange
  cases i with
  | load v b | addByte v b | random v b =>
    obtain ⟨hg, rfl, -⟩ := he
    rw [hg]
    exact h
  | readDelay v =>
    obtain ⟨hg, hb, rfl⟩ := he
    rw [hg]
    exact .inl ⟨hb, h⟩
  | arithmetic o v w =>
    obtain ⟨hg, ho, rfl, -⟩ := he
    rw [hg]
    exact h.imp_right fun hu => ⟨hu.1, o.mem_of_setsFlag ho hu.2⟩
  | draw v w rows =>
    obtain ⟨hg, -⟩ := he
    rw [hg]
    exact h
  | loadRegisters last =>
    obtain ⟨hg, hb, rfl⟩ := he
    rw [hg]
    exact .inr ⟨hb, h⟩
  | _ => exact absurd h id

theorem word_of_index_ne (hd : decode? op = some i) (h : (i.after c r s).index ≠ s.index) :
    (group op).val = 0xA ∨ (group op).val = 0xF ∧ (byte op = 0x1E ∨ byte op = 0x29) := by
  have he := decode?_eq_some_iff.1 hd
  rw [index_after] at h
  cases i with
  | loadIndex a => exact .inl he.1
  | addIndex v => exact .inr ⟨he.1, .inl he.2.1⟩
  | glyph v => exact .inr ⟨he.1, .inr he.2.1⟩
  | _ => exact absurd rfl h

theorem word_of_stack_ne (hd : decode? op = some i) (h : (i.after c r s).stack ≠ s.stack) :
    (group op).val = 0x2 ∨ op = 0x00EE := by
  have he := decode?_eq_some_iff.1 hd
  rw [stack_after] at h
  cases i with
  | call a => exact .inl he.1
  | ret => exact .inr he
  | _ => exact absurd rfl h

theorem word_of_byte_ne {k : ℕ} (hd : decode? op = some i)
    (h : (i.after c r s).memory.byte k ≠ s.memory.byte k) :
    (group op).val = 0xF ∧ s.index.toNat ≤ k ∧
      (byte op = 0x33 ∧ k ≤ s.index.toNat + 2 ∨
        byte op = 0x55 ∧ k ≤ s.index.toNat + (x op).val) := by
  have he := decode?_eq_some_iff.1 hd
  have hin : ¬ (k < s.index.toNat ∨ s.index.toNat + i.stored ≤ k) := fun hout => h (byte_after hout)
  cases i with
  | decimal v =>
    obtain ⟨hg, hb, -⟩ := he
    simp only [stored] at hin
    exact ⟨hg, by omega, .inl ⟨hb, by omega⟩⟩
  | saveRegisters last =>
    obtain ⟨hg, hb, rfl⟩ := he
    simp only [stored] at hin
    exact ⟨hg, by omega, .inr ⟨hb, by omega⟩⟩
  | _ => exact absurd (congrArg (Memory.byte · k) (memory_after_of_stored rfl)) h

theorem word_of_frame_ne (hd : decode? op = some i) (h : (i.after c r s).frame ≠ s.frame) :
    op = 0x00E0 ∨ (group op).val = 0xD := by
  have hredraw : i.effect = .redraw := by
    by_contra hne
    exact h (frame_after hne)
  simpa [draws, -val_group] using (effect_eq_redraw_iff hd).1 hredraw

theorem word_of_timer_ne {t : Timer} (hd : decode? op = some i)
    (h : (i.after c r s).timer t ≠ s.timer t) : (group op).val = 0xF ∧ byte op = t.code := by
  have hsets : sets t op = true := by
    by_contra hne
    exact h ((timer_after hd).trans (if_neg hne))
  simpa [sets, -val_group] using hsets

theorem effect_eq (hd : decode? op = some i) : i.effect = Opcode.effect op := by
  have he := decode?_eq_some_iff.1 hd
  cases i with
  | exit code =>
    obtain ⟨hg, hy, rfl⟩ := he
    have hop : ¬ (op = 0x00E0 ∨ (group op).val = 0xD) := by
      rintro (rfl | hd)
      · cases hy
      · rw [hg] at hd
        cases hd
    exact (if_pos ⟨hg, hy⟩).symm.trans (if_neg hop).symm
  | clear =>
    obtain rfl : op = 0x00E0 := he
    rfl
  | ret =>
    obtain rfl : op = 0x00EE := he
    rfl
  | draw v w rows => exact (if_pos (.inr he.1)).symm
  | skip condition =>
    cases condition with
    | _ => exact (effect_of_plain (he.1 ▸ by decide) (he.1 ▸ by decide)).symm
  | _ => exact (effect_of_plain (he.1 ▸ by decide) (he.1 ▸ by decide)).symm

theorem skips?_of_decode? {condition : Condition} (hd : decode? op = some (.skip condition)) :
    skips? c s op = some (condition.holds c s) := by
  have he := decode?_eq_some_iff.1 hd
  unfold skips?
  cases condition with
  | equalsByte v b =>
    obtain ⟨hg, rfl, rfl⟩ := he
    rw [hg]
    rfl
  | differsFromByte v b =>
    obtain ⟨hg, rfl, rfl⟩ := he
    rw [hg]
    exact congrArg some decide_not
  | equals v w =>
    obtain ⟨hg, -, rfl, rfl⟩ := he
    rw [hg]
    rfl
  | differs v w =>
    obtain ⟨hg, -, rfl, rfl⟩ := he
    rw [hg]
    exact congrArg some decide_not
  | keyPressed v | keyReleased v =>
    obtain ⟨hg, hb, rfl⟩ := he
    rw [hg, hb]
    rfl

/-- The program counter after an instruction is the one that its word leads to. -/
theorem toNat_nextPc (hd : decode? op = some i) :
    (i.nextPc c s).toNat = Opcode.nextPc c s op := by
  have he := decode?_eq_some_iff.1 hd
  have htwo : (s.pc + 2).toNat = (s.pc.toNat + 2) % 65536 := UInt16.toNat_add _ _
  cases i with
  | exit code =>
    obtain ⟨hg, hy, -⟩ := he
    have hop : op ≠ 0x00EE := by
      rintro rfl
      cases hy
    unfold Opcode.nextPc
    rw [hg, hy]
    exact (if_neg hop).symm
  | clear =>
    obtain rfl : op = 0x00E0 := he
    exact htwo
  | ret =>
    obtain rfl : op = 0x00EE := he
    exact Address.toNat_toWord_ofWord _
  | jump a | call a =>
    obtain ⟨hg, rfl⟩ := he
    unfold Opcode.nextPc
    rw [hg]
    exact Address.toNat_toWord_ofWord op
  | jumpOffset v b =>
    obtain ⟨hg, rfl, rfl⟩ := he
    have hv := (s.register (x op)).toNat_lt
    unfold Opcode.nextPc
    rw [hg]
    show (Address.ofWord ((byte op).toUInt16 + (s.register (x op)).toUInt16)).toWord.toNat =
      op.toNat % 256 + (s.register (x op)).toNat
    rw [Address.toNat_toWord_ofWord, UInt16.toNat_add, UInt8.toNat_toUInt16, UInt8.toNat_toUInt16,
      toNat_byte]
    omega
  | skip condition =>
    rw [nextPc_of_skips? (skips?_of_decode? hd)]
    simp only [nextPc]
    by_cases hc : condition.holds c s = true
    · rw [if_pos hc, if_pos hc, UInt16.toNat_add, htwo]
      show ((s.pc.toNat + 2) % 65536 + 2) % 65536 = _
      omega
    · rw [if_neg hc, if_neg hc, htwo]
  | _ => exact htwo.trans (nextPc_of_plain (he.1 ▸ by decide)).symm

end Instruction

/-- **The footprint of an instruction.**  Let a word be executed without a fault.  Of the registers
only those change that its digits say: `VX` for `6XNN`, `7XNN`, `8XY0` to `8XY3`, `CXNN` and `FX07`,
`VX` and `VF` for the other words `8XYN`, `VF` for `DXYN`, and `V0` to `VX` for `FX65`.  The index
register changes for `ANNN`, `FX1E` and `FX29` only, memory in the window of `FX33` and `FX55` only,
the pending calls for `2NNN` and `00EE`, the picture for `00E0` and `DXYN`, the timers for `FX15`
and `FX18`, and `CXNN` alone takes a random word, exactly one.  The program counter and what is
asked for are those that the word says. -/
theorem execute_footprint {c : Surroundings} {r : RandomSource} {s : State} {op : UInt16}
    {f : Effect} (h : (execute c r s op).value = .ok f) :
    let t := (execute c r s op).state
    (∀ u, t.register u ≠ s.register u → mayChange op u) ∧
      (t.index ≠ s.index →
        (group op).val = 0xA ∨ (group op).val = 0xF ∧ (byte op = 0x1E ∨ byte op = 0x29)) ∧
      (∀ k, t.memory.byte k ≠ s.memory.byte k →
        (group op).val = 0xF ∧ s.index.toNat ≤ k ∧
          (byte op = 0x33 ∧ k ≤ s.index.toNat + 2 ∨
            byte op = 0x55 ∧ k ≤ s.index.toNat + (x op).val)) ∧
      (t.stack ≠ s.stack → (group op).val = 0x2 ∨ op = 0x00EE) ∧
      (t.frame ≠ s.frame → op = 0x00E0 ∨ (group op).val = 0xD) ∧
      (t.delayTimer ≠ s.delayTimer → (group op).val = 0xF ∧ byte op = 0x15) ∧
      (t.soundTimer ≠ s.soundTimer → (group op).val = 0xF ∧ byte op = 0x18) ∧
      (execute c r s op).random = (if (group op).val = 0xC then r.skip 1 else r) ∧
      t.pc.toNat = nextPc c s op ∧
      f = effect op := by
  obtain ⟨i, hd, hx⟩ := execute_of_ok h
  rw [hx] at h ⊢
  obtain rfl : i.effect = f := Except.ok.inj h
  refine ⟨fun u hu => ?_, Instruction.word_of_index_ne hd, fun k => Instruction.word_of_byte_ne hd,
    Instruction.word_of_stack_ne hd, Instruction.word_of_frame_ne hd,
    Instruction.word_of_timer_ne (t := .delay) hd, Instruction.word_of_timer_ne (t := .sound) hd,
    ?_, ?_, Instruction.effect_eq hd⟩
  · refine Instruction.mayChange_of_writes hd ?_
    by_contra hw
    exact hu (Instruction.register_after hw)
  · simpa [takesWord, -val_group] using Instruction.randomAfter_of_decode? hd
  · show (i.after c r s).pc.toNat = _
    rw [Instruction.pc_after]
    exact Instruction.toNat_nextPc hd

/-- Two registers put into the last two bytes of memory change these only; the program counter goes
on beyond the end of memory. -/
theorem execute_footprint_at_edge :
    let x := execute edgeMachine.surroundings edgeMachine.random edge 0xF155
    x.value = .ok .proceed ∧ (∀ u, x.state.register u = edge.register u) ∧
      (∀ k < 0xFFE, x.state.memory.byte k = edge.memory.byte k) ∧ x.state.index = 0xFFE ∧
      x.state.stack = [0x202] ∧ x.random = edgeMachine.random ∧ x.state.pc.toNat = 0x1001 := by
  intro x
  have hv : x.value = .ok .proceed := rfl
  obtain ⟨hregister, hindex, hbyte, hstack, -, -, -, hrandom, hpc, -⟩ := execute_footprint hv
  refine ⟨hv, fun u => ?_, fun k hk => ?_, ?_, ?_, hrandom, hpc⟩
  · by_contra hu
    rcases hregister u hu with ⟨hb, -⟩ | ⟨hb, -⟩ <;> cases hb
  · by_contra hne
    exact Nat.not_le.2 hk (hbyte k hne).2.1
  · by_contra hne
    rcases hindex hne with hg | ⟨-, hb | hb⟩
    · cases hg
    · cases hb
    · cases hb
  · by_contra hne
    rcases hstack hne with hg | hop
    · cases hg
    · cases hop

end ChipEight
