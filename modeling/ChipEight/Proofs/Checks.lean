import ChipEight.Proofs.Bounds
import ChipEight.Proofs.CheckedDrawing

/-!
# No check fails

Checked execution does what execution does, for whatever word, surroundings and random source, as
long as the index register holds an address: the sum `I + VX` is the only one that could need more
than sixteen bits.  Everything that writes the index register cuts it to twelve bits.

* `State.Change`: what can be done to a state, from outside or by executing a word;
* `Instruction.checked?_eq`, `checkedExecute?_eq`: one instruction, one word;
* `State.index_change_le`, `State.index_foldl_change_le`: the index register holds an address after
  one change, and after all of them;
* `no_check_fails`: the main result.
-/

namespace ChipEight

open Checked Opcode

/-! ### Changes -/

/-- What can be done to a state.  Addresses, jump targets and return addresses are any words, and
nothing is assumed about the words that are executed and their surroundings. -/
inductive State.Change
  | reset
  | loadProgram (rom : List UInt8)
  | advance
  | jump (w : UInt16)
  | write (a : UInt64) (bs : List UInt8)
  | setPixel (x : Fin Frame.width) (y : Fin Frame.height) (on : Bool)
  | darken
  | push (a : UInt16) (limit : Option ℕ)
  | pop
  | setRegister (v : Register) (b : UInt8)
  | setFlag (on : Bool)
  | setIndex (w : UInt16)
  | countDown
  | execute (c : Surroundings) (r : RandomSource) (op : UInt16)

/-- The state after a change; what is refused leaves a state too. -/
def State.change (s : State) : State.Change → State
  | .reset => s.reset
  | .loadProgram rom => (s.loadProgram rom).state
  | .advance => s.advance
  | .jump w => s.jump (Address.ofWord w)
  | .write a bs => (s.write a.toNat bs).state
  | .setPixel x y on => (s.setPixel? x.val y.val on).getD s
  | .darken => s.darken
  | .push a limit => (s.push a limit).state
  | .pop => s.pop.state
  | .setRegister v b => s.setRegister v b
  | .setFlag on => s.setFlag on
  | .setIndex w => s.setIndex (Address.ofWord w)
  | .countDown => s.countDown
  | .execute c r op => (ChipEight.execute c r s op).state

/-! ### Digits -/

namespace Opcode

/-- A digit cut out of a number by a mask and a shift. -/
theorem and_shiftRight_eq_mod (k j : ℕ) : (k &&& 15 * 2 ^ j) >>> j = k / 2 ^ j % 16 := by
  rw [Nat.shiftRight_and_distrib, Nat.shiftRight_eq_div_pow, Nat.shiftRight_eq_div_pow,
    Nat.mul_div_cancel _ (Nat.two_pow_pos j)]
  exact Nat.and_two_pow_sub_one_eq_mod _ 4

theorem toNat_second_digit (op : UInt16) : ((op &&& 0x0F00) >>> 8).toNat = (x op).val := by
  rw [UInt16.toNat_shiftRight, UInt16.toNat_and]
  exact and_shiftRight_eq_mod op.toNat 8

theorem toNat_third_digit (op : UInt16) : ((op &&& 0x00F0) >>> 4).toNat = (y op).val := by
  rw [UInt16.toNat_shiftRight, UInt16.toNat_and]
  exact and_shiftRight_eq_mod op.toNat 4

end Opcode

/-! ### Conditions and arithmetic -/

theorem Surroundings.checkedKeyCode?_eq (c : Surroundings) (s : State) (v : Register) :
    c.checkedKeyCode? s v.val = some (c.keyCode s v) := by
  unfold checkedKeyCode? keyCode
  cases c.dialect.keySelector with
  | digit => rfl
  | register => exact s.register?_eq_some v

theorem Condition.checked?_eq {condition : Condition} {op : UInt16} (c : Surroundings) (s : State)
    (h : (Instruction.skip condition).Encoded op) :
    condition.checked? c s (x op).val (y op).val = some (condition.holds c s) := by
  cases condition with
  | equalsByte v b | differsFromByte v b =>
    obtain ⟨-, rfl, -⟩ := h
    rw [checked?, s.register?_eq_some]
    rfl
  | equals v w | differs v w =>
    obtain ⟨-, -, rfl, rfl⟩ := h
    rw [checked?, s.register?_eq_some, s.register?_eq_some]
    rfl
  | keyPressed v | keyReleased v =>
    obtain ⟨-, -, rfl⟩ := h
    rw [checked?, c.checkedKeyCode?_eq]
    rfl

/-- The top bit of a byte, shifted to the end. -/
theorem top_bit_beq_one (v : UInt8) : (v >>> 7 == 1) = decide (128 ≤ v) := by
  have hv := v.toNat_lt
  have htop : (v >>> 7).toNat = v.toNat / 128 := by
    rw [UInt8.toNat_shiftRight]
    exact Nat.shiftRight_eq_div_pow _ 7
  rw [Bool.eq_iff_iff, beq_iff_eq, decide_eq_true_iff, ← UInt8.toNat_inj, htop,
    UInt8.le_iff_toNat_le]
  show v.toNat / 128 = 1 ↔ 128 ≤ v.toNat
  omega

theorem Arithmetic.checked?_eq (d : Dialect) (s : State) (v w : Register) (o : Arithmetic) :
    o.checked? d s v.val w.val = some (o.apply d s v w) := by
  have hflag : ∀ (t : State) (on : Bool),
      t.setRegister? 15 (State.flagValue on) = some (t.setFlag on) := fun t on =>
    t.setRegister?_eq_some flagRegister _
  have hright : ∀ b : UInt8, shiftRight? b 1 = some (b >>> 1) := fun _ => rfl
  have hleft : ∀ b : UInt8, shiftLeft? b 1 = some (b <<< 1) := fun _ => rfl
  have htop : shiftRight? (s.register v) 7 = some (s.register v >>> 7) := rfl
  cases o <;>
    simp only [checked?, apply, State.register?_eq_some, State.setRegister?_eq_some, hflag, hright,
      hleft, htop, top_bit_beq_one, Option.bind_eq_bind, Option.bind_some]

/-! ### Sums and products of words -/

/-- An address plus a byte needs no more than sixteen bits. -/
theorem Checked.add?_byte {w : UInt16} (h : w ≤ 0xFFF) (v : UInt8) :
    add? w v.toUInt16 = some (w + v.toUInt16) := by
  have hw : w.toNat ≤ 0xFFF := UInt16.le_iff_toNat_le.1 h
  have hv := v.toNat_lt
  refine if_pos ?_
  rw [UInt8.toNat_toUInt16]
  omega

/-- Five times a byte needs no more than sixteen bits. -/
theorem Checked.mul?_height (v : UInt8) :
    mul? v.toUInt16 (.ofNat Glyph.height) = some (.ofNat (Glyph.address v.toNat)) := by
  have hv := v.toNat_lt
  have hfive : (UInt16.ofNat Glyph.height).toNat = 5 := rfl
  have hproduct : v.toUInt16 * .ofNat Glyph.height = .ofNat (Glyph.address v.toNat) := by
    rw [← UInt16.toNat_inj, UInt16.toNat_mul, UInt8.toNat_toUInt16, hfive, UInt16.toNat_ofNat']
    exact congrArg (· % 65536) (Nat.mul_comm _ _)
  unfold mul?
  rw [UInt8.toNat_toUInt16, hfive, if_pos (by omega), hproduct]

/-! ### Instructions -/

namespace Instruction

variable {c : Surroundings} {r : RandomSource} {s : State} {i : Instruction} {op : UInt16}

/-- Registers are loaded through a buffer. -/
theorem checked?_loadRegisters (v : Register) (k : ℕ) :
    (loadRegisters v).checked? c r s v.val k = some ((loadRegisters v).execute c r s) := by
  have hcount : v.val + 1 ≤ registerCount := v.isLt
  have hword : (UInt64.ofNat (v.val + 1)).toNat = v.val + 1 :=
    UInt64.toNat_ofNat_of_lt' (Nat.lt_of_le_of_lt hcount (by decide))
  rw [checked?, guard_of hcount, Option.bind_eq_bind, Option.bind_some, s.checkedRead?_eq,
    UInt16.toNat_toUInt64, hword, execute]
  by_cases hread : s.index.toNat + (v.val + 1) ≤ Memory.size
  · have hlength := s.memory.length_window s.index.toNat (v.val + 1)
    rw [s.read_of_le hread]
    generalize s.memory.window s.index.toNat (v.val + 1) = bs at hlength
    refine (copyInto?_bind_slice? _ hlength hcount _).trans ?_
    rw [s.copyInto?_registers hlength hcount]
    rfl
  · rw [s.read_of_lt (Nat.lt_of_not_le hread)]
    rfl

/-- A checked instruction is an instruction, if the index register holds an address. -/
theorem checked?_eq (h : i.Encoded op) (hindex : s.index ≤ 0xFFF) :
    i.checked? c r s (x op).val (y op).val = some (i.execute c r s) := by
  have haddress : s.index.toUInt64.toNat = s.index.toNat := UInt16.toNat_toUInt64 _
  cases i with
  | exit _ | clear | ret | jump _ | call _ | loadIndex _ => rfl
  | skip condition =>
    rw [checked?, Condition.checked?_eq c s h]
    rfl
  | load v b | random v b =>
    obtain ⟨-, rfl, -⟩ := h
    rw [checked?, s.setRegister?_eq_some]
    rfl
  | addByte v b =>
    obtain ⟨-, rfl, -⟩ := h
    rw [checked?, s.register?_eq_some, Option.bind_eq_bind, Option.bind_some,
      s.setRegister?_eq_some]
    rfl
  | arithmetic o v w =>
    obtain ⟨-, -, rfl, rfl⟩ := h
    rw [checked?, Arithmetic.checked?_eq]
    rfl
  | jumpOffset v b =>
    obtain ⟨-, rfl, -⟩ := h
    have hb : b.toUInt16 ≤ 0xFFF := by
      rw [UInt16.le_iff_toNat_le, UInt8.toNat_toUInt16]
      exact b.toNat_lt.le.trans (by decide)
    rw [checked?, s.register?_eq_some, Option.bind_eq_bind, Option.bind_some, add?_byte hb]
    rfl
  | draw v w rows =>
    obtain ⟨-, rfl, rfl, -⟩ := h
    rw [checked?, s.checkedDraw?_eq]
    rfl
  | readDelay v =>
    obtain ⟨-, -, rfl⟩ := h
    rw [checked?, s.setRegister?_eq_some]
    rfl
  | setDelay v | setSound v =>
    obtain ⟨-, -, rfl⟩ := h
    rw [checked?, s.register?_eq_some]
    rfl
  | addIndex v =>
    obtain ⟨-, -, rfl⟩ := h
    rw [checked?, s.register?_eq_some, Option.bind_eq_bind, Option.bind_some, add?_byte hindex]
    rfl
  | glyph v =>
    obtain ⟨-, -, rfl⟩ := h
    rw [checked?, s.register?_eq_some, Option.bind_eq_bind, Option.bind_some, mul?_height]
    rfl
  | decimal v =>
    obtain ⟨-, -, rfl⟩ := h
    have hlength : (decimalDigits (s.register (x op))).length < UInt64.size :=
      (by decide : 3 < UInt64.size)
    rw [checked?, s.register?_eq_some, Option.bind_eq_bind, Option.bind_some,
      s.checkedWrite?_eq _ hlength, haddress]
    rfl
  | saveRegisters v =>
    obtain ⟨-, -, rfl⟩ := h
    have hlength : (s.firstRegisters (x op)).length < UInt64.size := by
      rw [s.length_firstRegisters]
      exact Nat.lt_of_le_of_lt (x op).isLt (by decide)
    rw [checked?, s.slice?_registers, Option.bind_eq_bind, Option.bind_some,
      s.checkedWrite?_eq _ hlength, haddress]
    rfl
  | loadRegisters v =>
    obtain ⟨-, -, rfl⟩ := h
    exact checked?_loadRegisters (x op) (y op).val

end Instruction

/-- A checked word is a word, if the index register holds an address. -/
theorem checkedExecute?_eq (c : Surroundings) (r : RandomSource) {s : State} (op : UInt16)
    (h : s.index ≤ 0xFFF) : checkedExecute? c r s op = some (execute c r s op) := by
  unfold checkedExecute? execute
  rw [toNat_second_digit, toNat_third_digit]
  cases hd : Instruction.decode? op with
  | none => rfl
  | some i => exact Instruction.checked?_eq (Instruction.decode?_eq_some_iff.1 hd) h

/-! ### The index register -/

namespace State

variable {s : State}

theorem index_execute_le (c : Surroundings) (r : RandomSource) (op : UInt16)
    (h : s.index ≤ 0xFFF) : (ChipEight.execute c r s op).state.index ≤ 0xFFF := by
  cases hv : (ChipEight.execute c r s op).value with
  | error e =>
    rw [execute_of_fault hv]
    exact h
  | ok f =>
    obtain ⟨i, -, hx⟩ := execute_of_ok hv
    rw [hx]
    show (i.after c r s).index ≤ _
    rw [Instruction.index_after]
    exact Instruction.nextIndex_le h

theorem index_write (s : State) (a : ℕ) (bs : List UInt8) :
    (s.write a bs).state.index = s.index := by
  unfold write
  cases s.memory.write a bs <;> rfl

/-- No change puts anything but an address into the index register. -/
theorem index_change_le (h : s.index ≤ 0xFFF) (d : Change) : (s.change d).index ≤ 0xFFF := by
  cases d with
  | reset => exact (by decide : State.initial.index ≤ 0xFFF)
  | loadProgram rom => exact (s.index_write _ rom).symm ▸ h
  | write a bs => exact (s.index_write _ bs).symm ▸ h
  | setPixel x y on =>
    simp only [change, setPixel?]
    cases s.frame.setPixel? x.val y.val on <;> exact h
  | push a limit =>
    simp only [change, push]
    split
    · exact h
    · split <;> exact h
  | pop =>
    simp only [change, pop]
    split <;> exact h
  | setIndex w => exact Address.toWord_le _
  | execute c r op => exact index_execute_le c r op h
  | _ => exact h

theorem index_foldl_change_le (changes : List Change) (h : s.index ≤ 0xFFF) :
    (changes.foldl change s).index ≤ 0xFFF := by
  induction changes generalizing s with
  | nil => exact h
  | cons d changes ih => exact ih (index_change_le h d)

end State

/-- **No check fails.**  After any changes from power on, fetching and executing any word, checked
at every step, do what they do unchecked: no index or slice is out of range, no copy is of unequal
lengths, no difference is below zero, no shift is by eight places or more, and no sum or product of
words needs more than sixteen bits. -/
theorem no_check_fails (changes : List State.Change) (c : Surroundings) (r : RandomSource)
    (op : UInt16) :
    let s := changes.foldl State.change State.initial
    s.checkedFetch? = some s.fetch ∧ checkedExecute? c r s op = some (execute c r s op) :=
  ⟨State.checkedFetch?_eq _,
    checkedExecute?_eq c r op (State.index_foldl_change_le changes (by decide))⟩

/-- The checks are there: if the index register held no address, adding to it could fail one. -/
example (c : Surroundings) (r : RandomSource) :
    checkedExecute? c r { State.initial with
      index := 0xFFFF, registers := Vector.replicate registerCount 1 } 0xF01E = none := rfl

end ChipEight
