import ChipEight.Proofs.Faults
import ChipEight.Proofs.Invariants

/-!
# Bounds on reachable states

Jumps and the index register are cut to twelve bits, but stepping on and return addresses are not.
They stay in their bounds nevertheless, for an instruction is fetched below the last two bytes of
memory only: from there a skip leads at most to `0x1002`, and a call pushes at most `0x1000`.

* `State.Bounded`: the invariant;
* `State.Bounded.after`: an accepted instruction keeps it;
* `bounded_of_performAll?`: it holds of everything reachable, and what follows from it.
-/

namespace ChipEight

/-- The bounds that the index register, the program counter and the pending calls keep. -/
structure State.Bounded (limit : Option ℕ) (s : State) : Prop where
  index_le : s.index ≤ 0xFFF
  pc_le : s.pc ≤ 0x1002
  stack_mem : ∀ a ∈ s.stack, 2 ≤ a ∧ a ≤ 0x1000
  length_stack_le : ∀ l, limit = some l → s.stack.length ≤ l

theorem Address.toWord_le (a : Address) : a.toWord ≤ 0xFFF := by
  have h := a.isLt
  rw [UInt16.le_iff_toNat_le]
  simp only [toWord, UInt16.toNat_ofBitVec, BitVec.toNat_setWidth]
  show a.toNat % 2 ^ 16 ≤ 4095
  omega

namespace State

variable {limit : Option ℕ} {s : State} {i : Instruction}

theorem bounded_initial (limit : Option ℕ) : State.initial.Bounded limit where
  index_le := by decide
  pc_le := by decide
  stack_mem := by simp [initial]
  length_stack_le := by simp [initial]

theorem pc_le_of_fetch {w : UInt16} (h : s.fetch = .ok w) : s.pc ≤ 0xFFE := by
  have hle : s.pc.toNat + opcodeSize ≤ Memory.size := (exists_fetch_eq_ok_iff s).1 ⟨w, h⟩
  rw [UInt16.le_iff_toNat_le]
  show s.pc.toNat ≤ 4094
  simp only [opcodeSize, Memory.size] at hle
  omega

theorem toNat_pc_add_two (h : s.pc ≤ 0x1002) : (s.pc + 2).toNat = s.pc.toNat + 2 := by
  have hle : s.pc.toNat ≤ 0x1002 := UInt16.le_iff_toNat_le.1 h
  rw [UInt16.toNat_add]
  show (s.pc.toNat + 2) % 2 ^ 16 = _
  omega

theorem toNat_pc_add_four (h : s.pc ≤ 0x1002) : (s.pc + 2 + 2).toNat = s.pc.toNat + 4 := by
  have hle : s.pc.toNat ≤ 0x1002 := UInt16.le_iff_toNat_le.1 h
  rw [UInt16.toNat_add, toNat_pc_add_two h]
  show (s.pc.toNat + 2 + 2) % 2 ^ 16 = _
  omega

end State

namespace Instruction

variable {limit : Option ℕ} {c : Surroundings} {s : State} {i : Instruction}

/-- From where a fetch succeeds no instruction leads beyond `0x1002`. -/
theorem nextPc_le (h : s.pc ≤ 0xFFE) : i.nextPc c s ≤ 0x1002 := by
  have hpc : s.pc.toNat ≤ 0xFFE := UInt16.le_iff_toNat_le.1 h
  have hpc' : s.pc ≤ 0x1002 := UInt16.le_trans h (by decide)
  have htwo : s.pc + 2 ≤ 0x1002 := by
    rw [UInt16.le_iff_toNat_le, State.toNat_pc_add_two hpc']
    exact Nat.add_le_add_right (hpc.trans (by decide : 0xFFE ≤ 0x1000)) 2
  have hword : ∀ a : Address, a.toWord ≤ 0x1002 := fun a =>
    UInt16.le_trans a.toWord_le (by decide)
  -- jumps lead to an address, everything else at most two instructions further
  cases i with
  | exit code => exact hpc'
  | ret => exact hword _
  | jump a => exact hword _
  | call a => exact hword _
  | jumpOffset x b => exact hword _
  | skip condition =>
    simp only [nextPc]
    split
    · rw [UInt16.le_iff_toNat_le, State.toNat_pc_add_four hpc']
      exact Nat.add_le_add_right hpc 4
    · exact htwo
  | _ => exact htwo

theorem nextIndex_le (h : s.index ≤ 0xFFF) : i.nextIndex s ≤ 0xFFF := by
  cases i with
  | loadIndex a => exact a.toWord_le
  | addIndex x => exact Address.toWord_le _
  | glyph x => exact Address.toWord_le _
  | _ => exact h

/-- A call pushes an address just past an instruction, and no other instruction pushes any. -/
theorem nextStack_bounds (hpc : s.pc ≤ 0xFFE) (h : ∀ a ∈ s.stack, 2 ≤ a ∧ a ≤ 0x1000) :
    ∀ a ∈ i.nextStack s, 2 ≤ a ∧ a ≤ 0x1000 := by
  cases i with
  | call b =>
    intro a ha
    rcases List.mem_cons.1 ha with rfl | ha
    · have hle : s.pc.toNat ≤ 0xFFE := UInt16.le_iff_toNat_le.1 hpc
      have htwo := State.toNat_pc_add_two (UInt16.le_trans hpc (by decide))
      rw [UInt16.le_iff_toNat_le, UInt16.le_iff_toNat_le, htwo]
      exact ⟨Nat.le_add_left 2 _, Nat.add_le_add_right hle 2⟩
    · exact h a ha
  | ret => exact fun a ha => h a (List.mem_of_mem_tail ha)
  | _ => exact h

theorem length_nextStack_le (hr : i.refusal? limit s = none)
    (h : ∀ l, limit = some l → s.stack.length ≤ l) :
    ∀ l, limit = some l → (i.nextStack s).length ≤ l := by
  intro l hl
  cases i with
  | call b => exact State.callFault?_eq_none_iff.1 hr l hl
  | ret =>
    simp only [nextStack, List.length_tail]
    exact (Nat.sub_le _ _).trans (h l hl)
  | _ => exact h l hl

end Instruction

namespace State

variable {limit : Option ℕ} {s : State} {i : Instruction}

/-- An accepted instruction keeps the bounds, and so does counting down after it. -/
theorem Bounded.after (hs : s.Bounded limit) (hu : s.upcoming limit = .ok i) (c : Surroundings)
    (r : RandomSource) : (i.after c r s).countDown.Bounded limit := by
  obtain ⟨w, hf, -, hr⟩ := upcoming_eq_ok_iff.1 hu
  have hpc : s.pc ≤ 0xFFE := pc_le_of_fetch hf
  constructor
  · show (i.after c r s).index ≤ _
    rw [Instruction.index_after]
    exact Instruction.nextIndex_le hs.index_le
  · show (i.after c r s).pc ≤ _
    rw [Instruction.pc_after]
    exact Instruction.nextPc_le hpc
  · show ∀ a ∈ (i.after c r s).stack, _
    rw [Instruction.stack_after]
    exact Instruction.nextStack_bounds hpc hs.stack_mem
  · show ∀ l, _ → (i.after c r s).stack.length ≤ l
    rw [Instruction.stack_after]
    exact Instruction.length_nextStack_le hr hs.length_stack_le

theorem Bounded.store (hs : s.Bounded limit) (m : Memory) : { s with memory := m }.Bounded limit :=
  ⟨hs.index_le, hs.pc_le, hs.stack_mem, hs.length_stack_le⟩

end State

/-- The bounds survive everything that can happen to a machine. -/
theorem Machine.stable_bounded {η : Type} (limit : Option ℕ) :
    Stable fun m : Machine η => m.config.dialect.stackLimit = limit ∧ m.state.Bounded limit :=
  stable_of_state (State.bounded_initial limit) (fun c r _ _ _ hu hs => hs.after hu c r)
    fun _ _ hs => hs.store _

/-- Beyond the last instruction a ready machine faults, naming the first address it misses. -/
theorem Machine.value_tick_of_lt_pc {η : Type} {m : Machine η} (hs : m.status = .ready)
    (hlt : 0xFFE < m.state.pc) (hle : m.state.pc ≤ 0x1002) :
    ∃ a ∈ [0x1000, 0x1001, 0x1002], m.tick.value = .error (.outOfBounds a) := by
  have hlt' : 0xFFE < m.state.pc.toNat := UInt16.lt_iff_toNat_lt.1 hlt
  have hle' : m.state.pc.toNat ≤ 0x1002 := UInt16.le_iff_toNat_le.1 hle
  refine ⟨max m.state.pc.toNat 4096, ?_, ?_⟩
  · simp only [List.mem_cons, List.not_mem_nil, or_false]
    omega
  · rw [value_tick_eq_error_iff hs]
    refine State.upcoming_of_fetch_error (State.fetch_eq_error_iff.2 ⟨?_, rfl⟩)
    exact UInt16.le_iff_toNat_le.2 hlt'

/-- **Reachable states are bounded.**  After any commands and any number of further ticks, as a step
or a run makes them, the index register holds an address, the program counter is at most `0x1002`,
all pending return addresses lie between 2 and `0x1000`, and there are no more of them than the
dialect allows.  So neither stepping on nor skipping wraps the program counter around, whatever is
executed was fetched from `0xFFE` or below, and beyond that a ready machine faults at one of three
addresses. -/
theorem bounded_of_performAll? {η : Type} (config : Config) (entropy : ChaCha.Key)
    (keys : η → UInt8 → Bool) (host : η) (cs : List (Command η)) (o : Outcome η Unit)
    (h : Command.performAll? (Machine.create config entropy keys host) cs = some o) (n : ℕ) :
    let m := o.machine.afterTicks n
    m.state.Bounded config.dialect.stackLimit ∧
      m.state.advance.pc.toNat = m.state.pc.toNat + 2 ∧
      m.state.advance.advance.pc.toNat = m.state.pc.toNat + 4 ∧
      (∀ w, m.state.fetch = .ok w → m.state.pc ≤ 0xFFE) ∧
      (m.status = .ready → 0xFFE < m.state.pc →
        ∃ a ∈ [0x1000, 0x1001, 0x1002], m.tick.value = .error (.outOfBounds a)) := by
  have hP := Machine.stable_bounded (η := η) config.dialect.stackLimit
  have hcreate : (Machine.create config entropy keys host).state.Bounded
      config.dialect.stackLimit := State.bounded_initial _
  have hb := (hP.afterTicks (hP.performAll? ⟨rfl, hcreate⟩ h) n).2
  exact ⟨hb, State.toNat_pc_add_two hb.pc_le, State.toNat_pc_add_four hb.pc_le,
    fun w hf => State.pc_le_of_fetch hf,
    fun hs hlt => Machine.value_tick_of_lt_pc hs hlt hb.pc_le⟩

/-- A machine at power on. -/
def poweredOn : Machine Unit := Machine.create {} ChaCha.zeroKey (fun _ _ => false) ()

/-- A jump to the last byte of memory leads to a ready machine whose next tick faults. -/
theorem bounded_of_performAll?_jump :
    ∃ o, Command.performAll? poweredOn [.loadProgram [0x1F, 0xFF], .tick] = some o ∧
      o.machine.status = .ready ∧ 0xFFE < o.machine.state.pc ∧
      o.machine.state.Bounded (some 16) ∧
      ∃ a ∈ [0x1000, 0x1001, 0x1002], o.machine.tick.value = .error (.outOfBounds a) := by
  have hend : (Command.performAll? poweredOn [.loadProgram [0x1F, 0xFF], .tick]).map
      (fun o => (o.machine.status, o.machine.state.pc)) = some (.ready, 0xFFF) := by
    decide +kernel
  obtain ⟨o, ho, he⟩ := Option.map_eq_some_iff.1 hend
  obtain ⟨hs, hpc⟩ := Prod.mk.inj he
  have hlt : 0xFFE < o.machine.state.pc := by rw [hpc]; decide
  have h := bounded_of_performAll? {} ChaCha.zeroKey (fun _ _ => false) () _ o ho 0
  exact ⟨o, ho, hs, hlt, h.1, h.2.2.2.2 hs hlt⟩

end ChipEight
