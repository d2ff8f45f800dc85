import ChipEight.Execute

/-!
# What one instruction does

An instruction is either refused, and then it leaves the state and the random source as they were,
or it is accepted.  Which of the two happens depends on the state and on the bound on pending calls
alone, and is computed without executing anything.

* `Instruction.refusal?`: the fault with which an instruction is refused;
* `Instruction.effect`, `Instruction.after`, `Instruction.randomAfter`: what an accepted instruction
  asks for and leaves, with `nextPc`, `nextStack` and `nextIndex` for the parts of the state that
  steer execution;
* `Instruction.execute_of_refused`, `Instruction.execute_of_accepted`: the two kinds of outcome;
* `execute_of_fault`: a word that faults is refused;
* `executeAll`: words executed one after another.
-/

namespace ChipEight

/-! ### Operations that may be refused -/

namespace State

theorem push_of_full (s : State) (a : UInt16) {l : Nat} (h : l ≤ s.stack.length) :
    s.push a (some l) = ⟨.error (.stackOverflow l), s⟩ := if_neg (Nat.not_lt.2 h)

theorem push_of_room (s : State) (a : UInt16) {limit : Option Nat}
    (h : ∀ l, limit = some l → s.stack.length < l) :
    s.push a limit = .done () { s with stack := a :: s.stack } := by
  cases limit with
  | none => rfl
  | some l => exact if_pos (h l rfl)

theorem pop_of_nil {s : State} (h : s.stack = []) : s.pop = ⟨.error .stackUnderflow, s⟩ := by
  unfold pop; rw [h]

theorem pop_of_cons {s : State} {a : UInt16} {rest : List UInt16} (h : s.stack = a :: rest) :
    s.pop = .done a { s with stack := rest } := by
  unfold pop; rw [h]

theorem read_of_lt (s : State) {a n : Nat} (h : Memory.size < a + n) :
    s.read a n = ⟨.error (Memory.outside a), s⟩ := by
  rw [read, Memory.read_of_lt _ h]

theorem read_of_le (s : State) {a n : Nat} (h : a + n ≤ Memory.size) :
    s.read a n = .done (s.memory.window a n) s := by
  rw [read, Memory.read_of_le _ h]; rfl

theorem write_of_lt (s : State) {a : Nat} {bs : List UInt8} (h : Memory.size < a + bs.length) :
    s.write a bs = ⟨.error (Memory.outside a), s⟩ := by
  rw [write, Memory.write_of_lt _ h]

theorem write_of_le (s : State) {a : Nat} {bs : List UInt8} (h : a + bs.length ≤ Memory.size) :
    s.write a bs = .done () { s with memory := s.memory.store a bs } := by
  rw [write, Memory.write_of_le _ h]

@[simp] theorem length_firstRegisters (s : State) (last : Register) :
    (s.firstRegisters last).length = last.val + 1 := by
  simp only [firstRegisters, List.length_take, Vector.length_toList]
  exact Nat.min_eq_left last.isLt

/-- The registers after a block of bytes has been put into the first of them. -/
theorem register_setFirstRegisters_eq (s : State) (bs : List UInt8) (j : Register) :
    (s.setFirstRegisters bs).register j = (bs[j.val]?).getD (s.register j) := by
  simp [setFirstRegisters, register]

/-- The fault of an access of `n` bytes at the index register, if it leaves the memory. -/
def accessFault? (s : State) (n : Nat) : Option Fault :=
  if Memory.size < s.index.toNat + n then some (Memory.outside s.index.toNat) else none

/-- The fault of one more call, if there are too many already. -/
def callFault? (s : State) (limit : Option Nat) : Option Fault :=
  limit.bind fun l => if l ≤ s.stack.length then some (.stackOverflow l) else none

@[simp] theorem accessFault?_eq_some_iff {s : State} {n : Nat} {e : Fault} :
    s.accessFault? n = some e ↔
      Memory.size < s.index.toNat + n ∧ e = Memory.outside s.index.toNat := by
  simp [accessFault?, eq_comm]

@[simp] theorem accessFault?_eq_none_iff {s : State} {n : Nat} :
    s.accessFault? n = none ↔ s.index.toNat + n ≤ Memory.size := by
  simp [accessFault?]

@[simp] theorem callFault?_eq_some_iff {s : State} {limit : Option Nat} {e : Fault} :
    s.callFault? limit = some e ↔
      ∃ l, limit = some l ∧ l ≤ s.stack.length ∧ e = .stackOverflow l := by
  cases limit <;> simp [callFault?, eq_comm]

@[simp] theorem callFault?_eq_none_iff {s : State} {limit : Option Nat} :
    s.callFault? limit = none ↔ ∀ l, limit = some l → s.stack.length < l := by
  cases limit <;> simp [callFault?]

end State

namespace Instruction

variable {c : Surroundings} {r : RandomSource} {s : State} {i : Instruction} {e : Fault}

/-- The fault with which an instruction is refused, if it is. -/
def refusal? (limit : Option Nat) (s : State) : Instruction → Option Fault
  | ret => if s.stack = [] then some .stackUnderflow else none
  | call _ => s.callFault? limit
  | draw _ y rows => s.accessFault? (s.spriteHeight y rows)
  | decimal _ => s.accessFault? 3
  | saveRegisters last => s.accessFault? (last.val + 1)
  | loadRegisters last => s.accessFault? (last.val + 1)
  | _ => none

/-- What an accepted instruction asks for. -/
def effect : Instruction → Effect
  | exit code => .exit code
  | clear => .redraw
  | draw _ _ _ => .redraw
  | _ => .proceed

/-- A refused instruction leaves everything as it was. -/
theorem execute_of_refused (h : i.refusal? c.dialect.stackLimit s = some e) :
    i.execute c r s = ⟨⟨.error e, s⟩, r⟩ := by
  cases i with
  | ret =>
    obtain ⟨hs, rfl⟩ : s.stack = [] ∧ .stackUnderflow = e := by simpa [refusal?] using h
    rw [execute, State.pop_of_nil hs]; rfl
  | call a =>
    obtain ⟨l, hl, hle, rfl⟩ := State.callFault?_eq_some_iff.1 h
    rw [execute, hl, State.push_of_full _ _ hle]; rfl
  | draw x y rows =>
    obtain ⟨hlt, rfl⟩ := State.accessFault?_eq_some_iff.1 h
    rw [execute, State.draw, State.read_of_lt _ hlt]; rfl
  | decimal x =>
    obtain ⟨hlt, rfl⟩ := State.accessFault?_eq_some_iff.1 h
    rw [execute, State.write_of_lt _ hlt]; rfl
  | saveRegisters last =>
    obtain ⟨hlt, rfl⟩ := State.accessFault?_eq_some_iff.1 h
    rw [execute, State.write_of_lt _ (by simpa using hlt)]; rfl
  | loadRegisters last =>
    obtain ⟨hlt, rfl⟩ := State.accessFault?_eq_some_iff.1 h
    rw [execute, State.read_of_lt _ hlt]; rfl
  -- nothing else is ever refused
  | _ => simp [refusal?] at h

/-! ### Accepted instructions -/

/-- The state after an accepted instruction.  An instruction that can be refused says here what it
does otherwise; all others do what they do. -/
def after (c : Surroundings) (r : RandomSource) (s : State) : Instruction → State
  | ret => { s with stack := s.stack.tail }.jump (Address.ofWord (s.stack.headD 0))
  | call a => { s with stack := (s.pc + 2) :: s.stack }.jump a
  | draw x y rows =>
      (s.drawSprite (Sprite.mask (s.spriteColumn x) (s.spriteRow y)
        (s.memory.window s.index.toNat (s.spriteHeight y rows)))).advance
  | decimal x =>
      { s with
        memory := s.memory.store s.index.toNat (decimalDigits (s.register x)) }.advance
  | saveRegisters last =>
      { s with memory := s.memory.store s.index.toNat (s.firstRegisters last) }.advance
  | loadRegisters last =>
      (s.setFirstRegisters (s.memory.window s.index.toNat (last.val + 1))).advance
  | i => (i.execute c r s).state

/-- The random source after an accepted instruction. -/
def randomAfter (r : RandomSource) : Instruction → RandomSource
  | random _ _ => r.nextByte.2
  | _ => r

theorem execute_of_accepted (h : i.refusal? c.dialect.stackLimit s = none) :
    i.execute c r s = ⟨.done i.effect (i.after c r s), i.randomAfter r⟩ := by
  cases i with
  | ret =>
    obtain ⟨a, rest, hs⟩ : ∃ a rest, s.stack = a :: rest := by
      simpa [refusal?, List.ne_nil_iff_exists_cons] using h
    rw [execute, State.pop_of_cons hs, after, hs]; rfl
  | call a =>
    rw [execute, State.push_of_room _ _ (State.callFault?_eq_none_iff.1 h)]; rfl
  | draw x y rows =>
    rw [execute, State.draw, State.read_of_le _ (State.accessFault?_eq_none_iff.1 h)]; rfl
  | decimal x =>
    have hle : s.index.toNat + 3 ≤ Memory.size := State.accessFault?_eq_none_iff.1 h
    rw [execute, State.write_of_le _ hle]; rfl
  | saveRegisters last =>
    have hle : s.index.toNat + (last.val + 1) ≤ Memory.size := State.accessFault?_eq_none_iff.1 h
    rw [execute, State.write_of_le _ (by simpa using hle)]; rfl
  | loadRegisters last =>
    rw [execute, State.read_of_le _ (State.accessFault?_eq_none_iff.1 h)]; rfl
  | _ => rfl

theorem value_execute_eq_error_iff :
    (i.execute c r s).value = .error e ↔ i.refusal? c.dialect.stackLimit s = some e := by
  cases h : i.refusal? c.dialect.stackLimit s with
  | none => simp [execute_of_accepted h, Attempt.done]
  | some e' => simp [execute_of_refused h]

/-! ### What steers execution -/

/-- The program counter after an accepted instruction. -/
def nextPc (c : Surroundings) (s : State) : Instruction → UInt16
  | exit _ => s.pc
  | ret => (Address.ofWord (s.stack.headD 0)).toWord
  | jump a => a.toWord
  | call a => a.toWord
  | jumpOffset x b => (Address.ofWord (b.toUInt16 + (s.register x).toUInt16)).toWord
  | skip condition => if condition.holds c s then s.pc + 2 + 2 else s.pc + 2
  | _ => s.pc + 2

/-- The pending calls after an accepted instruction. -/
def nextStack (s : State) : Instruction → List UInt16
  | call _ => (s.pc + 2) :: s.stack
  | ret => s.stack.tail
  | _ => s.stack

/-- The index register after an accepted instruction. -/
def nextIndex (s : State) : Instruction → UInt16
  | loadIndex a => a.toWord
  | addIndex x => (Address.ofWord (s.index + (s.register x).toUInt16)).toWord
  | glyph x => (Address.ofWord (.ofNat (Glyph.address (s.register x).toNat))).toWord
  | _ => s.index

/-- A skip moves the program counter only. -/
theorem after_skip (condition : Condition) :
    (skip condition).after c r s = { s with pc := (skip condition).nextPc c s } := by
  show s.skipWhen (condition.holds c s) = _
  simp only [State.skipWhen, nextPc]
  split <;> rfl

/-- Arithmetic changes registers only, and moves on. -/
theorem after_arithmetic (operation : Arithmetic) (x y : Register) :
    (arithmetic operation x y).after c r s =
      { s with
        registers := ((arithmetic operation x y).after c r s).registers
        pc := s.pc + 2 } := by
  cases operation <;> rfl

theorem pc_after : (i.after c r s).pc = i.nextPc c s := by
  cases i with
  | skip condition => rw [after_skip]
  | arithmetic operation x y => rw [after_arithmetic]; rfl
  | _ => rfl

theorem stack_after : (i.after c r s).stack = i.nextStack s := by
  cases i with
  | skip condition => rw [after_skip]; rfl
  | arithmetic operation x y => rw [after_arithmetic]; rfl
  | _ => rfl

theorem index_after : (i.after c r s).index = i.nextIndex s := by
  cases i with
  | skip condition => rw [after_skip]; rfl
  | arithmetic operation x y => rw [after_arithmetic]; rfl
  | _ => rfl

end Instruction

/-! ### Words -/

section Words

variable {c : Surroundings} {r : RandomSource} {s t : State} {op op' : UInt16} {e : Fault}

theorem execute_of_decode?_eq_none (h : Instruction.decode? op = none) :
    execute c r s op = ⟨⟨.error (.unrecognizedOpcode op), s⟩, r⟩ := by
  unfold execute; rw [h]

theorem execute_of_decode?_eq_some {i : Instruction} (h : Instruction.decode? op = some i) :
    execute c r s op = i.execute c r s := by
  unfold execute; rw [h]

/-- A word that is not refused does what its instruction does. -/
theorem execute_of_accepted {i : Instruction} (hd : Instruction.decode? op = some i)
    (hok : i.refusal? c.dialect.stackLimit s = none) :
    execute c r s op = ⟨.done i.effect (i.after c r s), i.randomAfter r⟩ := by
  rw [execute_of_decode?_eq_some hd, Instruction.execute_of_accepted hok]

/-- A word that faults leaves everything as it was. -/
theorem execute_of_fault (h : (execute c r s op).value = .error e) :
    execute c r s op = ⟨⟨.error e, s⟩, r⟩ := by
  cases hd : Instruction.decode? op with
  | none =>
    rw [execute_of_decode?_eq_none hd] at h ⊢
    cases h; rfl
  | some i =>
    rw [execute_of_decode?_eq_some hd] at h ⊢
    exact Instruction.execute_of_refused (Instruction.value_execute_eq_error_iff.1 h)

/-- A word that does not fault is an accepted instruction. -/
theorem execute_of_ok {f : Effect} (h : (execute c r s op).value = .ok f) :
    ∃ i, Instruction.decode? op = some i ∧
      execute c r s op = ⟨.done i.effect (i.after c r s), i.randomAfter r⟩ := by
  cases hd : Instruction.decode? op with
  | none =>
    rw [execute_of_decode?_eq_none hd] at h
    cases h
  | some i =>
    rw [execute_of_decode?_eq_some hd] at h ⊢
    cases hr : i.refusal? c.dialect.stackLimit s with
    | none => exact ⟨i, rfl, Instruction.execute_of_accepted hr⟩
    | some e =>
      rw [Instruction.execute_of_refused hr] at h
      cases h

/-- Words executed one after another, up to the first that faults: what they ask for. -/
def executeAll (c : Surroundings) (r : RandomSource) (s : State) :
    List UInt16 → Attempt (List Effect)
  | [] => .done [] s
  | op :: ops =>
      let x := execute c r s op
      x.toAttempt.andThen fun f t =>
        (executeAll c x.random t ops).andThen fun fs u => .done (f :: fs) u

@[simp] theorem executeAll_nil : executeAll c r s [] = .done [] s := rfl

theorem executeAll_cons_of_ok {f : Effect} {r' : RandomSource} (ops : List UInt16)
    (h : execute c r s op = ⟨.done f t, r'⟩) :
    executeAll c r s (op :: ops) =
      (executeAll c r' t ops).andThen fun fs u => .done (f :: fs) u := by
  rw [executeAll, h]
  rfl

/-- Two words, neither of which is refused. -/
theorem executeAll_pair {f f' : Effect} {u : State} {r' r'' : RandomSource}
    (h : execute c r s op = ⟨.done f t, r'⟩) (h' : execute c r' t op' = ⟨.done f' u, r''⟩) :
    executeAll c r s [op, op'] = .done [f, f'] u := by
  rw [executeAll_cons_of_ok [op'] h, executeAll_cons_of_ok [] h']
  rfl

/-- Words the first of which is refused leave everything as it was. -/
theorem state_executeAll_cons_of_fault (ops : List UInt16)
    (h : (execute c r s op).value = .error e) : (executeAll c r s (op :: ops)).state = s := by
  rw [executeAll, execute_of_fault h]
  rfl

end Words

end ChipEight
