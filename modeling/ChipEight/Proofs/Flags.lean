import ChipEight.Proofs.Footprint

/-!
# Results and flags

Five of the words `8XYN` leave a result in `VX` and a flag in `VF`.  Both are computed from the
values that the registers have before the word, so it does not matter whether `X` and `Y` are the
same register; that one of them is `VF` matters for the last of the two writes only.

* `Opcode.result`, `Opcode.raises`: the result and the flag, as numbers;
* `Arithmetic.apply_flagFirst`, `Arithmetic.apply_subtractFrom`: the order of the two writes;
* `flags_under_aliasing`: the main result.
-/

namespace ChipEight

open Opcode

/-! ### What is computed -/

namespace Opcode

/-- The result of a word `8XYk`, where `a` and `b` are the values of `VX` and `VY` and `v` is the
one that is shifted. -/
def result (k : ℕ) (a b v : ℤ) : ℤ :=
  match k with
  | 0x4 => (a + b) % 256
  | 0x5 => (a - b) % 256
  | 0x6 => v / 2
  | 0x7 => (b - a) % 256
  | _ => 2 * v % 256

/-- Whether a word `8XYk` raises the flag. -/
def raises (k : ℕ) (a b v : ℤ) : Bool :=
  match k with
  | 0x4 => decide (a + b ≥ 256)
  | 0x5 => decide (a > b)
  | 0x6 => decide (v % 2 = 1)
  | 0x7 => decide (b ≥ a)
  | _ => decide (a ≥ 128)

end Opcode

namespace Arithmetic

/-- The byte that an operation puts into `VX`. -/
def byte (d : Dialect) (vx vy : UInt8) : Arithmetic → UInt8
  | copy => vy
  | or => vx ||| vy
  | and => vx &&& vy
  | xor => vx ^^^ vy
  | add => vx + vy
  | subtract => vx - vy
  | shiftRight => d.shifted vx vy >>> 1
  | subtractFrom => vy - vx
  | shiftLeft => d.shifted vx vy <<< 1

/-- Whether an operation that sets the flag raises it. -/
def flag (d : Dialect) (vx vy : UInt8) : Arithmetic → Bool
  | add => decide (256 ≤ vx.toNat + vy.toNat)
  | subtract => decide (vy < vx)
  | shiftRight => d.shifted vx vy % 2 == 1
  | subtractFrom => decide (vx ≤ vy)
  | shiftLeft => decide (128 ≤ vx)
  | _ => false

variable {d : Dialect} {s : State} {v w : Register} {o : Arithmetic} {k : ℕ}

/-- All but one of the operations write the flag first, so that the result survives in VF. -/
theorem apply_flagFirst (hf : o.setsFlag = true) (ho : o ≠ subtractFrom) :
    o.apply d s v w =
      (s.setFlag (o.flag d (s.register v) (s.register w))).setRegister v
        (o.byte d (s.register v) (s.register w)) := by
  cases o with
  | copy | or | and | xor => cases hf
  | subtractFrom => exact absurd rfl ho
  | add | subtract | shiftRight | shiftLeft => rfl

/-- The other one writes the result first, so that the flag survives. -/
theorem apply_subtractFrom :
    subtractFrom.apply d s v w =
      (s.setRegister v (subtractFrom.byte d (s.register v) (s.register w))).setFlag
        (subtractFrom.flag d (s.register v) (s.register w)) := rfl

theorem setsFlag_of_mem (h : Instruction.arithmetic? k = some o)
    (hk : k ∈ [0x4, 0x5, 0x6, 0x7, 0xE]) : o.setsFlag = true := by
  simp only [List.mem_cons, List.not_mem_nil, or_false] at hk
  rcases hk with rfl | rfl | rfl | rfl | rfl <;> cases h <;> rfl

theorem eq_subtractFrom_iff (h : Instruction.arithmetic? k = some o) :
    o = subtractFrom ↔ k = 0x7 := by
  unfold Instruction.arithmetic? at h
  split at h <;> cases h <;> simp_all

theorem toNat_halved (v : UInt8) : (v >>> 1).toNat = v.toNat / 2 := by
  rw [UInt8.toNat_shiftRight]
  exact Nat.shiftRight_eq_div_pow _ 1

theorem toNat_doubled (v : UInt8) : (v <<< 1).toNat = 2 * v.toNat % 256 := by
  rw [UInt8.toNat_shiftLeft, Nat.mul_comm]
  exact congrArg (· % 256) (Nat.shiftLeft_eq _ 1)

theorem toNat_shifted (d : Dialect) (vx vy : UInt8) :
    ((d.shifted vx vy).toNat : ℤ) =
      match d.shiftOperand with
      | .y => (vy.toNat : ℤ)
      | .x => (vx.toNat : ℤ) := by
  unfold Dialect.shifted
  cases d.shiftOperand <;> rfl

/-- The byte is the result of the word, as a number. -/
theorem toNat_byte_eq_result (h : Instruction.arithmetic? k = some o)
    (hf : o.setsFlag = true) (vx vy : UInt8) :
    ((o.byte d vx vy).toNat : ℤ) = result k vx.toNat vy.toNat (d.shifted vx vy).toNat := by
  have hvx := vx.toNat_lt
  have hvy := vy.toNat_lt
  unfold Instruction.arithmetic? at h
  split at h <;> cases h <;> cases hf
  case h_5 =>
    show (((vx + vy).toNat : ℕ) : ℤ) = (vx.toNat + vy.toNat) % 256
    rw [UInt8.toNat_add]
    omega
  case h_6 =>
    show (((vx - vy).toNat : ℕ) : ℤ) = (vx.toNat - vy.toNat) % 256
    rw [UInt8.toNat_sub]
    omega
  case h_7 =>
    show (((d.shifted vx vy >>> 1).toNat : ℕ) : ℤ) = (d.shifted vx vy).toNat / 2
    rw [toNat_halved]
    omega
  case h_8 =>
    show (((vy - vx).toNat : ℕ) : ℤ) = (vy.toNat - vx.toNat) % 256
    rw [UInt8.toNat_sub]
    omega
  case h_9 =>
    show (((d.shifted vx vy <<< 1).toNat : ℕ) : ℤ) = 2 * (d.shifted vx vy).toNat % 256
    rw [toNat_doubled]
    omega

/-- The flag is the one of the word. -/
theorem flag_eq_raises (h : Instruction.arithmetic? k = some o) (hf : o.setsFlag = true)
    (vx vy : UInt8) :
    o.flag d vx vy = raises k vx.toNat vy.toNat (d.shifted vx vy).toNat := by
  unfold Instruction.arithmetic? at h
  split at h <;> cases h <;> cases hf
  case h_5 =>
    refine decide_eq_decide.2 ?_
    omega
  case h_6 =>
    refine decide_eq_decide.2 (UInt8.lt_iff_toNat_lt.trans ?_)
    omega
  case h_7 =>
    show (d.shifted vx vy % 2 == 1) = decide (((d.shifted vx vy).toNat : ℤ) % 2 = 1)
    rw [Bool.eq_iff_iff, beq_iff_eq, decide_eq_true_iff, ← UInt8.toNat_inj, UInt8.toNat_mod]
    show (d.shifted vx vy).toNat % 2 = 1 ↔ _
    omega
  case h_8 =>
    refine decide_eq_decide.2 (UInt8.le_iff_toNat_le.trans ?_)
    omega
  case h_9 =>
    refine decide_eq_decide.2 (UInt8.le_iff_toNat_le.trans ?_)
    show 128 ≤ vx.toNat ↔ _
    omega

/-! ### What the two writes leave -/

/-- The values of `VX` and VF after an operation that sets the flag. -/
theorem registers_apply (h : Instruction.arithmetic? k = some o) (hf : o.setsFlag = true) :
    (v ≠ flagRegister →
      (o.apply d s v w).register v = o.byte d (s.register v) (s.register w) ∧
      (o.apply d s v w).register flagRegister =
        State.flagValue (o.flag d (s.register v) (s.register w))) ∧
    (v = flagRegister →
      (o.apply d s v w).register flagRegister =
        if k = 0x7 then State.flagValue (o.flag d (s.register v) (s.register w))
        else o.byte d (s.register v) (s.register w)) := by
  by_cases ho : o = subtractFrom
  · have hk : k = 0x7 := (eq_subtractFrom_iff h).1 ho
    subst ho
    rw [apply_subtractFrom, if_pos hk]
    refine ⟨fun hv => ⟨?_, State.register_setRegister_self ..⟩,
      fun _ => State.register_setRegister_self ..⟩
    exact (State.register_setRegister_of_ne _ _ hv.symm).trans (State.register_setRegister_self ..)
  · have hk : k ≠ 0x7 := mt (eq_subtractFrom_iff h).2 ho
    rw [apply_flagFirst hf ho, if_neg hk]
    refine ⟨fun hv => ⟨State.register_setRegister_self .., ?_⟩, ?_⟩
    · exact (State.register_setRegister_of_ne _ _ hv).trans (State.register_setRegister_self ..)
    · rintro rfl
      exact State.register_setRegister_self ..

end Arithmetic

/-! ### Words -/

section

variable {c : Surroundings} {r : RandomSource} {s : State} {op : UInt16}

theorem exists_arithmetic?_of_mem {k : ℕ} (hk : k ∈ [0x4, 0x5, 0x6, 0x7, 0xE]) :
    ∃ o, Instruction.arithmetic? k = some o := by
  simp only [List.mem_cons, List.not_mem_nil, or_false] at hk
  rcases hk with rfl | rfl | rfl | rfl | rfl <;> exact ⟨_, rfl⟩

/-- A word of the group `8` that is an instruction. -/
theorem execute_of_arithmetic {o : Arithmetic} (hop : (group op).val = 0x8)
    (ho : Instruction.arithmetic? (n op).val = some o) :
    execute c r s op = ⟨.next (o.apply c.dialect s (x op) (y op)), r⟩ := by
  have hd : Instruction.decode? op = some (.arithmetic o (x op) (y op)) :=
    Instruction.decode?_eq_some_iff.2 ⟨hop, ho, rfl, rfl⟩
  rw [execute_of_decode?_eq_some hd]
  rfl

/-- Words that add a byte or combine two registers bit by bit leave VF alone, unless it is `VX`. -/
theorem register_flag_of_plain
    (hop : (group op).val = 0x7 ∨ (group op).val = 0x8 ∧ (n op).val ≤ 0x3)
    (hx : x op ≠ flagRegister) :
    (execute c r s op).value = .ok .proceed ∧
      (execute c r s op).state.register flagRegister = s.register flagRegister := by
  rcases hop with hg | ⟨hg, hn⟩
  · have hd : Instruction.decode? op = some (.addByte (x op) (byte op)) :=
      Instruction.decode?_eq_some_iff.2 ⟨hg, rfl, rfl⟩
    rw [execute_of_decode?_eq_some hd]
    exact ⟨rfl, State.register_setRegister_of_ne _ _ hx⟩
  · obtain ⟨o, ho, hf⟩ : ∃ o, Instruction.arithmetic? (n op).val = some o ∧ o.setsFlag = false := by
      generalize (n op).val = k at hn
      interval_cases k <;> exact ⟨_, rfl, rfl⟩
    rw [execute_of_arithmetic hg ho]
    refine ⟨rfl, o.register_apply hx.symm fun h => ?_⟩
    rw [hf] at h
    cases h

end

/-- **Results and flags, whichever registers coincide.**  A word `8XY4`, `8XY5`, `8XY6`, `8XY7` or
`8XYE` is never refused.  Its result and its flag are functions of the values that `VX` and `VY`
have before it.  If `X` is not F the result is in `VX` and the flag in VF afterwards; if `X` is F,
only one of them is left, which is the flag for `8XY7` and the result for the others.  So for other
`X` the carry of a sum and the bit that a shift to the right drops can be read off VF.  The words
`7XNN` and `8XY0` to `8XY3` leave VF alone unless `X` is F. -/
theorem flags_under_aliasing (c : Surroundings) (r : RandomSource) (s : State) (op : UInt16) :
    let a : ℤ := (s.register (x op)).toNat
    let b : ℤ := (s.register (y op)).toNat
    let v : ℤ := match c.dialect.shiftOperand with
      | .y => b
      | .x => a
    let k := (n op).val
    let t := (execute c r s op).state
    let vx : ℤ := (t.register (x op)).toNat
    let vf : ℤ := (t.register flagRegister).toNat
    ((group op).val = 0x8 → k ∈ [0x4, 0x5, 0x6, 0x7, 0xE] →
      (execute c r s op).value = .ok .proceed ∧
        (x op ≠ flagRegister → vx = result k a b v ∧ vf = if raises k a b v then 1 else 0) ∧
        (x op = flagRegister →
          vf = if k = 0x7 then (if raises k a b v then 1 else 0) else result k a b v) ∧
        (x op ≠ flagRegister → k = 0x4 → vx + 256 * vf = a + b) ∧
        (x op ≠ flagRegister → k = 0x6 → 2 * vx + vf = v)) ∧
      ((group op).val = 0x7 ∨ (group op).val = 0x8 ∧ k ≤ 0x3 → x op ≠ flagRegister →
        (execute c r s op).value = .ok .proceed ∧
          t.register flagRegister = s.register flagRegister) := by
  intro a b v k t vx vf
  refine ⟨fun hop hk => ?_, fun hop hx => register_flag_of_plain hop hx⟩
  obtain ⟨o, ho⟩ := exists_arithmetic?_of_mem hk
  have hf : o.setsFlag = true := Arithmetic.setsFlag_of_mem ho hk
  have hx := execute_of_arithmetic (c := c) (r := r) (s := s) hop ho
  have ht : t = (o.apply c.dialect s (x op) (y op)).advance := congrArg (·.state) hx
  have hv : ((c.dialect.shifted (s.register (x op)) (s.register (y op))).toNat : ℤ) = v :=
    Arithmetic.toNat_shifted ..
  have hbyte := Arithmetic.toNat_byte_eq_result (d := c.dialect) ho hf
    (s.register (x op)) (s.register (y op))
  have hflag := Arithmetic.flag_eq_raises (d := c.dialect) ho hf
    (s.register (x op)) (s.register (y op))
  rw [hv] at hbyte hflag
  obtain ⟨hother, hsame⟩ := Arithmetic.registers_apply (d := c.dialect) (s := s) (v := x op)
    (w := y op) ho hf
  have hvalue : ∀ on : Bool, ((State.flagValue on).toNat : ℤ) = if on then 1 else 0 := by
    decide
  have hxf : x op ≠ flagRegister →
      vx = result k a b v ∧ vf = if raises k a b v then 1 else 0 := by
    intro hne
    obtain ⟨hvx, hvf⟩ := hother hne
    constructor
    · show ((t.register (x op)).toNat : ℤ) = _
      rw [ht]
      exact (congrArg (fun u : UInt8 => (u.toNat : ℤ)) hvx).trans hbyte
    · show ((t.register flagRegister).toNat : ℤ) = _
      rw [ht]
      refine (congrArg (fun u : UInt8 => (u.toNat : ℤ)) hvf).trans ?_
      rw [hvalue, hflag]
  refine ⟨by rw [hx]; rfl, hxf, fun he => ?_, fun hne h4 => ?_, fun hne h6 => ?_⟩
  · show ((t.register flagRegister).toNat : ℤ) = _
    rw [ht]
    refine (congrArg (fun u : UInt8 => (u.toNat : ℤ)) (hsame he)).trans ?_
    split
    · rw [hvalue, hflag]
    · exact hbyte
  · obtain ⟨hvx, hvf⟩ := hxf hne
    rw [hvx, hvf, h4]
    simp only [result, raises, decide_eq_true_eq]
    have ha := (s.register (x op)).toNat_lt
    have hb := (s.register (y op)).toNat_lt
    split <;> omega
  · obtain ⟨hvx, hvf⟩ := hxf hne
    rw [hvx, hvf, h6]
    simp only [result, raises, decide_eq_true_eq]
    split <;> omega

/-- A state in which V1 and VF add up to 256. -/
def carryState : State :=
  (State.initial.setRegister ⟨1, Nat.succ_lt_succ (Nat.succ_pos 14)⟩ 0x70).setRegister
    flagRegister 0x90

/-- Added to itself VF keeps the sum, subtracted from itself by `8XY7` the flag; added to V1 it gets
the carry, its old value being the operand. -/
theorem flags_under_aliasing_carry :
    let t (op : UInt16) :=
      (execute ⟨{}, fun _ => false⟩ (RandomSource.ofSeed 0) carryState op).state
    (((t 0x8FF4).register flagRegister).toNat : ℤ) = 32 ∧
      (((t 0x8FF7).register flagRegister).toNat : ℤ) = 1 ∧
      (((t 0x81F4).register (x 0x81F4)).toNat : ℤ) +
        256 * (((t 0x81F4).register flagRegister).toNat : ℤ) = 256 := by
  intro t
  obtain ⟨hsum, -⟩ :=
    flags_under_aliasing ⟨{}, fun _ => false⟩ (RandomSource.ofSeed 0) carryState 0x8FF4
  obtain ⟨hdifference, -⟩ :=
    flags_under_aliasing ⟨{}, fun _ => false⟩ (RandomSource.ofSeed 0) carryState 0x8FF7
  obtain ⟨hcarry, -⟩ :=
    flags_under_aliasing ⟨{}, fun _ => false⟩ (RandomSource.ofSeed 0) carryState 0x81F4
  exact ⟨(hsum rfl (by decide)).2.2.1 rfl, (hdifference rfl (by decide)).2.2.1 rfl,
    (hcarry rfl (by decide)).2.2.2.1 (by decide) rfl⟩

end ChipEight
