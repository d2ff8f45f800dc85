import ChipEight.Proofs.Recognition
import ChipEight.Proofs.Tick

/-!
# When execution faults, and what a fault leaves behind

* `value_execute_eq_unrecognizedOpcode_iff` and its like: exactly when a word is refused with each
  kind of fault;
* `State.fetch_eq_error_iff`: exactly when fetching fails;
* `Machine.value_tick_eq_error_iff`: a tick of a ready machine faults as its state and the bound on
  pending calls say, whatever surrounds it;
* `fault_characterization`, `atomic_of_fault`: the two main results.
-/

namespace ChipEight

open Opcode

/-! ### Refused instructions -/

namespace Instruction

variable {limit : Option Nat} {s : State} {i : Instruction}

theorem refusal?_ne_unrecognizedOpcode (w : UInt16) :
    i.refusal? limit s ≠ some (.unrecognizedOpcode w) := by
  cases i <;> simp [refusal?, Memory.outside]

theorem refusal?_eq_stackUnderflow_iff :
    i.refusal? limit s = some .stackUnderflow ↔ i = ret ∧ s.stack = [] := by
  cases i <;> simp [refusal?, Memory.outside]

theorem refusal?_eq_stackOverflow_iff {l : Nat} :
    i.refusal? limit s = some (.stackOverflow l) ↔
      (∃ a, i = call a) ∧ limit = some l ∧ l ≤ s.stack.length := by
  cases i <;> simp [refusal?, Memory.outside]

/-- The number of bytes at the index register that an instruction reads or writes. -/
def accessed? (s : State) : Instruction → Option Nat
  | draw _ y rows => some (s.spriteHeight y rows)
  | decimal _ => some 3
  | saveRegisters last => some (last.val + 1)
  | loadRegisters last => some (last.val + 1)
  | _ => none

theorem refusal?_eq_outOfBounds_iff {a : Nat} :
    i.refusal? limit s = some (.outOfBounds a) ↔
      a = max s.index.toNat Memory.size ∧
        ∃ n, i.accessed? s = some n ∧ Memory.size < s.index.toNat + n := by
  cases i <;> simp [refusal?, accessed?, Memory.outside] <;> grind

end Instruction

/-! ### Words that fault -/

section Words

variable {c : Surroundings} {r : RandomSource} {s : State} {op : UInt16}

theorem value_execute_eq_error_iff {e : Fault} :
    (execute c r s op).value = .error e ↔
      (Instruction.decode? op = none ∧ e = .unrecognizedOpcode op) ∨
        ∃ i, Instruction.decode? op = some i ∧ i.refusal? c.dialect.stackLimit s = some e := by
  cases hd : Instruction.decode? op with
  | none => simp [execute_of_decode?_eq_none hd, eq_comm]
  | some i => simp [execute_of_decode?_eq_some hd, Instruction.value_execute_eq_error_iff]

theorem value_execute_eq_unrecognizedOpcode_iff {w : UInt16} :
    (execute c r s op).value = .error (.unrecognizedOpcode w) ↔
      w = op ∧ ¬ ∃ p ∈ Pattern.table, p.Matches op := by
  rw [value_execute_eq_error_iff, ← Instruction.decode?_eq_none_iff]
  simp [Instruction.refusal?_ne_unrecognizedOpcode, and_comm]

theorem value_execute_eq_stackUnderflow_iff :
    (execute c r s op).value = .error .stackUnderflow ↔ op = 0x00EE ∧ s.stack = [] := by
  simp [value_execute_eq_error_iff, Instruction.refusal?_eq_stackUnderflow_iff,
    Instruction.decode?_eq_some_iff, Instruction.Encoded]

theorem value_execute_eq_stackOverflow_iff {l : Nat} :
    (execute c r s op).value = .error (.stackOverflow l) ↔
      (group op).val = 0x2 ∧ c.dialect.stackLimit = some l ∧ l ≤ s.stack.length := by
  rw [value_execute_eq_error_iff]
  constructor
  · rintro (⟨-, h⟩ | ⟨i, hd, hr⟩)
    · cases h
    · obtain ⟨⟨a, rfl⟩, hl, hle⟩ := Instruction.refusal?_eq_stackOverflow_iff.1 hr
      exact ⟨(Instruction.decode?_eq_some_iff.1 hd).1, hl, hle⟩
  · rintro ⟨hg, hl, hle⟩
    exact Or.inr ⟨.call (target op), Instruction.decode?_eq_some_iff.2 ⟨hg, rfl⟩,
      Instruction.refusal?_eq_stackOverflow_iff.2 ⟨⟨_, rfl⟩, hl, hle⟩⟩

/-- The words that access memory, with the number of bytes of the access. -/
theorem exists_accessed?_iff (s : State) (op : UInt16) (P : Nat → Prop) :
    (∃ i n, Instruction.decode? op = some i ∧ i.accessed? s = some n ∧ P n) ↔
      (group op).val = 0xF ∧ byte op = 0x33 ∧ P 3 ∨
      (group op).val = 0xF ∧ (byte op = 0x55 ∨ byte op = 0x65) ∧ P ((x op).val + 1) ∨
      (group op).val = 0xD ∧ P (s.spriteHeight (y op) (n op)) := by
  constructor
  · rintro ⟨i, n, hd, ha, hn⟩
    have he := Instruction.decode?_eq_some_iff.1 hd
    cases i with
    | draw v w rows =>
      obtain ⟨hg, rfl, rfl, rfl⟩ := he
      cases ha
      exact Or.inr (Or.inr ⟨hg, hn⟩)
    | decimal v =>
      obtain ⟨hg, hb, rfl⟩ := he
      cases ha
      exact Or.inl ⟨hg, hb, hn⟩
    | saveRegisters v =>
      obtain ⟨hg, hb, rfl⟩ := he
      cases ha
      exact Or.inr (Or.inl ⟨hg, Or.inl hb, hn⟩)
    | loadRegisters v =>
      obtain ⟨hg, hb, rfl⟩ := he
      cases ha
      exact Or.inr (Or.inl ⟨hg, Or.inr hb, hn⟩)
    | _ => cases ha
  · rintro (⟨hg, hb, hn⟩ | ⟨hg, hb | hb, hn⟩ | ⟨hg, hn⟩)
    · exact ⟨.decimal (x op), _, Instruction.decode?_eq_some_iff.2 ⟨hg, hb, rfl⟩, rfl, hn⟩
    · exact ⟨.saveRegisters (x op), _, Instruction.decode?_eq_some_iff.2 ⟨hg, hb, rfl⟩, rfl, hn⟩
    · exact ⟨.loadRegisters (x op), _, Instruction.decode?_eq_some_iff.2 ⟨hg, hb, rfl⟩, rfl, hn⟩
    · exact ⟨.draw (x op) (y op) (n op), _,
        Instruction.decode?_eq_some_iff.2 ⟨hg, rfl, rfl, rfl⟩, rfl, hn⟩

theorem value_execute_eq_outOfBounds_iff {a : Nat} (hi : s.index ≤ 0xFFF) :
    (execute c r s op).value = .error (.outOfBounds a) ↔
      a = 4096 ∧
        ((group op).val = 0xF ∧ byte op = 0x33 ∧ 4096 < s.index.toNat + 3 ∨
         (group op).val = 0xF ∧ (byte op = 0x55 ∨ byte op = 0x65) ∧
           4096 < s.index.toNat + ((x op).val + 1) ∨
         (group op).val = 0xD ∧
           4096 < s.index.toNat + min (n op).val (32 - (s.register (y op)).toNat % 32)) := by
  have hmax : max s.index.toNat Memory.size = 4096 :=
    Nat.max_eq_right (Nat.le_succ_of_le (UInt16.le_iff_toNat_le.1 hi))
  -- the address is that of the end of memory, for the index register is never beyond it
  have hiff := exists_accessed?_iff s op fun n => 4096 < s.index.toNat + n
  rw [value_execute_eq_error_iff]
  refine Iff.trans ?_ (and_congr_right' hiff)
  simp only [Instruction.refusal?_eq_outOfBounds_iff, hmax]
  constructor
  · rintro (⟨-, h⟩ | ⟨i, hd, ha, n, hn, hlt⟩)
    · cases h
    · exact ⟨ha, i, n, hd, hn, hlt⟩
  · rintro ⟨ha, i, n, hd, hn, hlt⟩
    exact Or.inr ⟨i, hd, ha, n, hn, hlt⟩

end Words

theorem State.fetch_eq_error_iff {s : State} {e : Fault} :
    s.fetch = .error e ↔ 0xFFF ≤ s.pc ∧ e = .outOfBounds (max s.pc.toNat 4096) := by
  have hle : (0xFFF : UInt16) ≤ s.pc ↔ 0xFFF ≤ s.pc.toNat := UInt16.le_iff_toNat_le
  by_cases h : s.pc.toNat + opcodeSize ≤ Memory.size
  · have hlt : ¬ 0xFFF ≤ s.pc.toNat := by simp only [opcodeSize, Memory.size] at h; omega
    simp [fetch, Memory.read_of_le _ h, hle, hlt]
  · have hge : 0xFFF ≤ s.pc.toNat := by simp only [opcodeSize, Memory.size] at h; omega
    simp [fetch, Memory.read_of_lt _ (Nat.lt_of_not_le h), hle, hge, Memory.outside, Memory.size,
      eq_comm]

/-! ### Ticks that fault -/

namespace Machine

variable {η : Type} {m : Machine η} {e : Fault}

theorem value_tick_eq_error_iff (hs : m.status = .ready) :
    m.tick.value = .error e ↔ m.upcoming = .error e := by
  cases h : m.upcoming with
  | error e' => rw [(tick_of_upcoming_error hs h).2.1]; simp
  | ok i => rw [(tick_of_upcoming_ok hs h).2]; simp

/-- A tick that faults changes the status and nothing else, and makes no callback. -/
theorem tick_of_fault (h : m.tick.value = .error e) :
    (m.status = .ready ∨ m.status = .faulted e) ∧ m.tick.machine = { m with status := .faulted e } ∧
      ∀ x ∈ m.tick.events, ∃ record, x = .log record := by
  by_cases hs : m.status = .ready
  · obtain ⟨hm, -, hx⟩ := tick_of_upcoming_error hs ((value_tick_eq_error_iff hs).1 h)
    exact ⟨Or.inl hs, hm, hx⟩
  · rw [tick_of_not_ready hs] at h ⊢
    have hf : m.status = .faulted e := by
      cases hm : m.status with
      | ready => exact absurd hm hs
      | exited code => rw [hm] at h; cases h
      | faulted e' => rw [hm] at h; cases h; rfl
    refine ⟨Or.inr hf, ?_, by simp⟩
    rw [← hf]

theorem loadProgram_of_fault {rom : List UInt8} (h : (m.loadProgram rom).value = .error e) :
    (m.loadProgram rom).machine = m ∧ (m.loadProgram rom).events = #[] := by
  by_cases hle : Program.start + rom.length ≤ Memory.size
  · simp [loadProgram, State.loadProgram, State.write_of_le _ hle, Attempt.done] at h
  · have ht : m.state.loadProgram rom = ⟨.error (Memory.outside Program.start), m.state⟩ :=
      State.write_of_lt _ (Nat.lt_of_not_le hle)
    simp [loadProgram, ht]

end Machine

/-! ### The main results -/

/-- **Faults are atomic.**  A word that faults leaves the state and the random source as they were;
a tick that faults changes nothing but the status, shows no picture and does not tell the buzzer; a
program that does not fit changes nothing at all. -/
theorem atomic_of_fault :
    (∀ (c : Surroundings) (r : RandomSource) (s : State) (op : UInt16) (e : Fault),
      (execute c r s op).value = .error e →
        (execute c r s op).state = s ∧ (execute c r s op).random = r) ∧
    (∀ {η : Type} (m : Machine η) (e : Fault), m.tick.value = .error e →
      (m.status = .ready ∨ m.status = .faulted e) ∧
        m.tick.machine = { m with status := .faulted e } ∧
        ∀ x ∈ m.tick.events, ∃ record, x = .log record) ∧
    (∀ {η : Type} (m : Machine η) (rom : List UInt8) (e : Fault),
      (m.loadProgram rom).value = .error e →
        (m.loadProgram rom).machine = m ∧ (m.loadProgram rom).events = #[]) := by
  refine ⟨fun c r s op e h => ?_, fun m e h => Machine.tick_of_fault h,
    fun m rom e h => Machine.loadProgram_of_fault h⟩
  rw [execute_of_fault h]
  exact ⟨rfl, rfl⟩

/-- A state at the very end of memory, with one pending call. -/
def edge : State := { State.initial with index := 0xFFE, pc := 0xFFF, stack := [0x202] }

/-- A machine in that state. -/
def edgeMachine : Machine Unit :=
  { Machine.create {} ChaCha.zeroKey (fun _ _ => false) () with state := edge }

/-- Three digits do not fit at the end of memory, nor does an instruction or a program. -/
theorem atomic_at_edge :
    (execute edgeMachine.surroundings edgeMachine.random edge 0xF033).value =
        .error (.outOfBounds 4096) ∧
      (execute edgeMachine.surroundings edgeMachine.random edge 0xF033).state = edge ∧
      edgeMachine.tick.value = .error (.outOfBounds 4096) ∧
      edgeMachine.tick.machine = { edgeMachine with status := .faulted (.outOfBounds 4096) } ∧
      (edgeMachine.loadProgram (List.replicate 3585 0)).value = .error (.outOfBounds 4096) ∧
      (edgeMachine.loadProgram (List.replicate 3585 0)).machine = edgeMachine := by
  have h1 : (execute edgeMachine.surroundings edgeMachine.random edge 0xF033).value =
      .error (.outOfBounds 4096) := rfl
  have h2 : edgeMachine.tick.value = .error (.outOfBounds 4096) := rfl
  have h3 : (edgeMachine.loadProgram (List.replicate 3585 0)).value =
      .error (.outOfBounds 4096) := by
    simp only [Machine.loadProgram, State.loadProgram]
    rw [State.write_of_lt _ (by rw [List.length_replicate]; decide)]
    rfl
  exact ⟨h1, (atomic_of_fault.1 _ _ _ _ _ h1).1, h2, (atomic_of_fault.2.1 _ _ h2).2.1, h3,
    (atomic_of_fault.2.2 _ _ _ h3).1⟩

/-- **When execution faults.**  For every word and every state whose index register holds an
address, each fault arises in exactly the cases listed, and there are no others; fetching fails
exactly where no two bytes are left; and whether and with which fault a tick of a ready machine ends
is the same for any two machines with the same state and the same bound on pending calls, whatever
their hosts, keys, random sources and other choices of dialect. -/
theorem fault_characterization :
    (∀ (c : Surroundings) (r : RandomSource) (s : State) (op : UInt16), s.index ≤ 0xFFF →
      (∀ w, (execute c r s op).value = .error (.unrecognizedOpcode w) ↔
        w = op ∧ ¬ ∃ p ∈ Pattern.table, p.Matches op) ∧
      ((execute c r s op).value = .error .stackUnderflow ↔ op = 0x00EE ∧ s.stack = []) ∧
      (∀ l, (execute c r s op).value = .error (.stackOverflow l) ↔
        (group op).val = 0x2 ∧ c.dialect.stackLimit = some l ∧ l ≤ s.stack.length) ∧
      (∀ a, (execute c r s op).value = .error (.outOfBounds a) ↔
        a = 4096 ∧
          ((group op).val = 0xF ∧ byte op = 0x33 ∧ 4096 < s.index.toNat + 3 ∨
           (group op).val = 0xF ∧ (byte op = 0x55 ∨ byte op = 0x65) ∧
             4096 < s.index.toNat + ((x op).val + 1) ∨
           (group op).val = 0xD ∧
             4096 < s.index.toNat + min (n op).val (32 - (s.register (y op)).toNat % 32)))) ∧
    (∀ (s : State) (e : Fault),
      s.fetch = .error e ↔ 0xFFF ≤ s.pc ∧ e = .outOfBounds (max s.pc.toNat 4096)) ∧
    (∀ {η η' : Type} (m : Machine η) (m' : Machine η') (e : Fault),
      m.status = .ready → m'.status = .ready → m.state = m'.state →
      m.config.dialect.stackLimit = m'.config.dialect.stackLimit →
      (m.tick.value = .error e ↔ m'.tick.value = .error e)) := by
  refine ⟨fun c r s op hi => ⟨fun w => value_execute_eq_unrecognizedOpcode_iff,
    value_execute_eq_stackUnderflow_iff, fun l => value_execute_eq_stackOverflow_iff,
    fun a => value_execute_eq_outOfBounds_iff hi⟩, fun s e => State.fetch_eq_error_iff, ?_⟩
  intro η η' m m' e hs hs' hstate hlimit
  rw [Machine.value_tick_eq_error_iff hs, Machine.value_tick_eq_error_iff hs', Machine.upcoming,
    Machine.upcoming, hstate, hlimit]

/-- Another machine in the state at the end of memory: its host answers for the keys, and the seed,
the shifts and the key instructions are others. -/
def otherEdgeMachine : Machine Bool :=
  { Machine.create { seed := some 7, dialect := { shiftOperand := .x, keySelector := .register } }
      ChaCha.zeroKey (fun h _ => h) true with state := edge }

/-- A call, three digits and a fetch at the end of memory. -/
theorem fault_characterization_at_edge :
    (edge.index ≤ 0xFFF ∧
      (execute edgeMachine.surroundings edgeMachine.random edge 0xF033).value =
        .error (.outOfBounds 4096) ∧
      (execute ⟨{ stackLimit := some 1 }, fun _ => true⟩ edgeMachine.random edge 0x2ABC).value =
        .error (.stackOverflow 1)) ∧
    (edgeMachine.status = .ready ∧ otherEdgeMachine.status = .ready ∧
      edgeMachine.state = otherEdgeMachine.state ∧
      edgeMachine.config.dialect.stackLimit = otherEdgeMachine.config.dialect.stackLimit ∧
      otherEdgeMachine.tick.value = .error (.outOfBounds 4096)) := by
  have hi : edge.index ≤ 0xFFF := by decide
  have hm : edgeMachine.tick.value = .error (.outOfBounds 4096) := rfl
  refine ⟨⟨hi, ?_, ?_⟩, rfl, rfl, rfl, rfl, ?_⟩
  · exact ((fault_characterization.1 _ _ edge 0xF033 hi).2.2.2 4096).2
      ⟨rfl, Or.inl ⟨rfl, rfl, by decide⟩⟩
  · exact ((fault_characterization.1 _ _ edge 0x2ABC hi).2.2.1 1).2 ⟨rfl, rfl, by decide⟩
  · exact (fault_characterization.2.2 edgeMachine otherEdgeMachine _ rfl rfl rfl rfl).1 hm

end ChipEight
