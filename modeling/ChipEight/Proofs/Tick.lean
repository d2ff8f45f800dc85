import ChipEight.Machine.Command
import ChipEight.Proofs.Execution

/-!
# What one tick does

A tick of a ready machine either meets a fault, which becomes the status and changes nothing else,
or executes an instruction.  Displays and buzzer cannot reach the machine except through the reply
of its host, so what they do amounts to one reply at the end.

* `State.upcoming`: the instruction that a tick executes, or the fault that it meets;
* `machine_showOn`, `machine_soundBuzzer`: callbacks amount to a reply of the host;
* `tick_of_not_ready`, `tick_of_upcoming_error`, `tick_of_upcoming_ok`: the three kinds of tick, and
  `machine_tick_cases`, what each leaves behind;
* `machine_reset`, `machine_loadProgram_of_le`, `machine_loadProgram_of_lt`: what a reset and a load
  leave behind;
* `BuiltAlike`: what neither a tick nor a reset changes.
-/

namespace ChipEight

/-! ### The instruction at the program counter -/

/-- The instruction that a tick of a ready machine executes, or the fault that it meets. -/
def State.upcoming (limit : Option Nat) (s : State) : Except Fault Instruction :=
  match s.fetch with
  | .error e => .error e
  | .ok op =>
      match Instruction.decode? op with
      | none => .error (.unrecognizedOpcode op)
      | some i =>
          match i.refusal? limit s with
          | some e => .error e
          | none => .ok i

namespace State

variable {limit : Option Nat} {s : State} {op : UInt16} {i : Instruction}

theorem upcoming_of_fetch_error {e : Fault} (h : s.fetch = .error e) :
    s.upcoming limit = .error e := by
  unfold upcoming; rw [h]

theorem upcoming_of_decode?_eq_none (hf : s.fetch = .ok op)
    (hd : Instruction.decode? op = none) : s.upcoming limit = .error (.unrecognizedOpcode op) := by
  unfold upcoming; rw [hf]; simp only [hd]

theorem upcoming_of_refused {e : Fault} (hf : s.fetch = .ok op)
    (hd : Instruction.decode? op = some i) (hr : i.refusal? limit s = some e) :
    s.upcoming limit = .error e := by
  unfold upcoming; rw [hf]; simp only [hd, hr]

theorem upcoming_of_accepted (hf : s.fetch = .ok op) (hd : Instruction.decode? op = some i)
    (hr : i.refusal? limit s = none) : s.upcoming limit = .ok i := by
  unfold upcoming; rw [hf]; simp only [hd, hr]

theorem upcoming_eq_ok_iff :
    s.upcoming limit = .ok i ↔
      ∃ op, s.fetch = .ok op ∧ Instruction.decode? op = some i ∧ i.refusal? limit s = none := by
  constructor
  · intro h
    cases hf : s.fetch with
    | error e => rw [upcoming_of_fetch_error hf] at h; cases h
    | ok op =>
      cases hd : Instruction.decode? op with
      | none => rw [upcoming_of_decode?_eq_none hf hd] at h; cases h
      | some j =>
        cases hr : j.refusal? limit s with
        | some e => rw [upcoming_of_refused hf hd hr] at h; cases h
        | none =>
          rw [upcoming_of_accepted hf hd hr] at h
          cases h
          exact ⟨op, rfl, hd, hr⟩
  · rintro ⟨op, hf, hd, hr⟩
    exact upcoming_of_accepted hf hd hr

variable {c : Surroundings} {r : RandomSource} {e : Fault}

/-- An unknown word and a refused instruction both leave everything as it was. -/
theorem execute_of_upcoming_error (hf : s.fetch = .ok op)
    (h : s.upcoming c.dialect.stackLimit = .error e) : execute c r s op = ⟨⟨.error e, s⟩, r⟩ := by
  cases hd : Instruction.decode? op with
  | none =>
    rw [upcoming_of_decode?_eq_none hf hd] at h
    cases h
    exact execute_of_decode?_eq_none hd
  | some i =>
    rw [execute_of_decode?_eq_some hd]
    cases hr : i.refusal? c.dialect.stackLimit s with
    | none => rw [upcoming_of_accepted hf hd hr] at h; cases h
    | some e' =>
      rw [upcoming_of_refused hf hd hr] at h
      cases h
      exact Instruction.execute_of_refused hr

theorem execute_of_upcoming_ok (hf : s.fetch = .ok op)
    (h : s.upcoming c.dialect.stackLimit = .ok i) :
    execute c r s op = ⟨.done i.effect (i.after c r s), i.randomAfter r⟩ := by
  obtain ⟨op', hf', hd, hr⟩ := upcoming_eq_ok_iff.1 h
  obtain rfl : op = op' := Except.ok.inj (hf.symm.trans hf')
  exact execute_of_accepted hd hr

end State

/-- The status of a machine whose instruction had this effect. -/
def Effect.status : Effect → Status
  | proceed => .ready
  | redraw => .ready
  | exit code => .exited code

/-- What a machine that is not ready answers to a tick. -/
def Status.answer : Status → Machine.Result
  | faulted e => .error e
  | s => .ok s

namespace Machine

variable {η : Type} {m : Machine η} {e : Fault} {i : Instruction}

/-- The instruction that the next tick executes, or the fault that it meets. -/
def upcoming (m : Machine η) : Except Fault Instruction :=
  m.state.upcoming m.config.dialect.stackLimit

/-! ### Replies of the host -/

theorem respond_self (m : Machine η) : m.respond { host := m.host } = m := by
  simp [respond]

theorem respond_respond (m : Machine η) (q r : Reply η) :
    (m.respond q).respond r = m.respond { host := r.host, stop := q.stop || r.stop } := by
  simp [respond, Bool.or_assoc]

theorem machine_showOn (m : Machine η) (k : Nat) (ds : List (Display η)) :
    ∃ r, (m.showOn k ds).machine = m.respond r := by
  induction ds generalizing m k with
  | nil => exact ⟨_, (respond_self m).symm⟩
  | cons d ds ih =>
    obtain ⟨r, hr⟩ := ih (m.respond (d m.state.frame m.host)) (k + 1)
    exact ⟨_, hr.trans (respond_respond m _ r)⟩

theorem machine_soundBuzzer (m : Machine η) : ∃ r, m.soundBuzzer.machine = m.respond r := by
  unfold soundBuzzer
  split
  · exact ⟨_, (respond_self m).symm⟩
  · exact ⟨_, rfl⟩

theorem machine_perform (m : Machine η) (f : Effect) (h : m.status = .ready) :
    ∃ r, (m.perform f).machine = { m with status := f.status }.respond r := by
  have hm : { m with status := .ready } = m := by rw [← h]
  cases f with
  | proceed => exact ⟨_, (hm.symm.trans (respond_self _).symm)⟩
  | redraw =>
    obtain ⟨r, hr⟩ := m.machine_showOn 0 m.displays
    exact ⟨r, hr.trans (by rw [Effect.status, hm])⟩
  | exit code => exact ⟨_, (respond_self _).symm⟩

/-- After its instruction a tick counts the timers down and answers with the status; its callbacks
amount to one reply of the host. -/
theorem complete_of_ready (m : Machine η) (f : Effect) (h : m.status = .ready) :
    (∃ r, (m.complete f).machine =
      { m with state := m.state.countDown, status := f.status }.respond r) ∧
      (m.complete f).value = .ok f.status := by
  obtain ⟨q, hq⟩ := m.machine_perform f h
  obtain ⟨r, hr⟩ := (m.perform f).machine.countDown.machine.machine_soundBuzzer
  have hc : (m.complete f).machine =
      { m with state := m.state.countDown, status := f.status }.respond
        { host := r.host, stop := q.stop || r.stop } := by
    show (m.perform f).machine.countDown.machine.soundBuzzer.machine = _
    rw [hr, hq, ← respond_respond]
    rfl
  refine ⟨⟨_, hc⟩, ?_⟩
  show Except.ok (m.complete f).machine.status = _
  rw [hc]; rfl

/-! ### The three kinds of tick -/

theorem tick_of_not_ready (h : m.status ≠ .ready) : m.tick = ⟨m, #[], m.status.answer⟩ := by
  cases hs : m.status with
  | ready => exact absurd hs h
  | exited code => exact tick_of_exited hs
  | faulted e => exact tick_of_faulted hs

theorem tick_of_ready (h : m.status = .ready) : m.tick = m.executeNext := by
  unfold tick; rw [h]

/-- A fault becomes the status and the answer; nothing else changes and no callback is made. -/
theorem tick_of_upcoming_error (hs : m.status = .ready) (h : m.upcoming = .error e) :
    m.tick.machine = { m with status := .faulted e } ∧ m.tick.value = .error e ∧
      ∀ x ∈ m.tick.events, ∃ record, x = .log record := by
  rw [tick_of_ready hs]
  unfold executeNext
  cases hf : m.state.fetch with
  | error e' =>
    rw [upcoming, State.upcoming_of_fetch_error hf] at h
    cases h
    simp [halt]
  | ok op =>
    have hx : execute m.surroundings m.random m.state op = ⟨⟨.error e, m.state⟩, m.random⟩ :=
      State.execute_of_upcoming_error hf h
    simp [reportOpcode, report, hx, adopt, conclude, halt]

/-- A tick that meets no fault reports its word, executes an instruction and completes the tick. -/
theorem tick_eq_complete (hs : m.status = .ready) (h : m.upcoming = .ok i) :
    ∃ op, m.state.fetch = .ok op ∧ Instruction.decode? op = some i ∧
      m.tick = (m.reportOpcode op).andThen fun m =>
        (m.adopt ⟨.done i.effect (i.after m.surroundings m.random m.state),
          i.randomAfter m.random⟩).complete i.effect := by
  obtain ⟨op, hf, hd, -⟩ := State.upcoming_eq_ok_iff.1 h
  have hx : execute m.surroundings m.random m.state op =
      ⟨.done i.effect (i.after m.surroundings m.random m.state), i.randomAfter m.random⟩ :=
    State.execute_of_upcoming_ok hf h
  refine ⟨op, hf, hd, ?_⟩
  rw [tick_of_ready hs]
  unfold executeNext
  rw [hf]
  simp only [reportOpcode, report, Outcome.andThen, hx]
  rfl

/-- A tick that meets no fault executes an instruction. -/
theorem tick_of_upcoming_ok (hs : m.status = .ready) (h : m.upcoming = .ok i) :
    (∃ r, m.tick.machine =
      { m with
        state := (i.after m.surroundings m.random m.state).countDown
        status := i.effect.status
        random := i.randomAfter m.random }.respond r) ∧
      m.tick.value = .ok i.effect.status := by
  obtain ⟨op, -, -, ht⟩ := tick_eq_complete hs h
  rw [ht]
  exact complete_of_ready
    (m.adopt ⟨.done i.effect (i.after m.surroundings m.random m.state), i.randomAfter m.random⟩)
    i.effect hs

/-- A tick leaves the machine as it is, or makes it faulted, or executes an instruction. -/
theorem machine_tick_cases (m : Machine η) :
    (m.status ≠ .ready ∧ m.tick.machine = m) ∨
      (∃ e, m.status = .ready ∧ m.upcoming = .error e ∧
        m.tick.machine = { m with status := .faulted e }) ∨
      ∃ i r, m.status = .ready ∧ m.upcoming = .ok i ∧
        m.tick.machine =
          { m with
            state := (i.after m.surroundings m.random m.state).countDown
            status := i.effect.status
            random := i.randomAfter m.random }.respond r := by
  by_cases hs : m.status = .ready
  · cases hu : m.upcoming with
    | error e => exact .inr (.inl ⟨e, hs, rfl, (tick_of_upcoming_error hs hu).1⟩)
    | ok i =>
      obtain ⟨⟨r, hr⟩, -⟩ := tick_of_upcoming_ok hs hu
      exact .inr (.inr ⟨i, r, hs, rfl, hr⟩)
  · exact .inl ⟨hs, by rw [tick_of_not_ready hs]⟩

/-! ### Resets and loads -/

/-- Whatever the displays do with the dark picture amounts to one reply of the host. -/
theorem machine_reset (m : Machine η) :
    ∃ r, m.reset.machine = { m with state := State.initial, status := .ready }.respond r :=
  machine_showOn { m with state := State.initial, status := .ready } 0 m.displays

theorem state_reset (m : Machine η) : m.reset.machine.state = State.initial := by
  obtain ⟨r, hr⟩ := m.machine_reset
  rw [hr]
  rfl

theorem status_reset (m : Machine η) : m.reset.machine.status = .ready := by
  obtain ⟨r, hr⟩ := m.machine_reset
  rw [hr]
  rfl

theorem machine_loadProgram_of_le (m : Machine η) {rom : List UInt8}
    (h : Program.start + rom.length ≤ Memory.size) :
    (m.loadProgram rom).machine =
      { m with
        state := { m.state with memory := m.state.memory.store Program.start rom } } := by
  unfold loadProgram State.loadProgram
  rw [State.write_of_le _ h]
  rfl

theorem machine_loadProgram_of_lt (m : Machine η) {rom : List UInt8}
    (h : Memory.size < Program.start + rom.length) : (m.loadProgram rom).machine = m := by
  unfold loadProgram State.loadProgram
  rw [State.write_of_lt _ h]

/-- A load changes the memory at most. -/
theorem exists_machine_loadProgram (m : Machine η) (rom : List UInt8) :
    ∃ mem, (m.loadProgram rom).machine = { m with state := { m.state with memory := mem } } := by
  by_cases h : Program.start + rom.length ≤ Memory.size
  · exact ⟨_, m.machine_loadProgram_of_le h⟩
  · exact ⟨_, m.machine_loadProgram_of_lt (Nat.lt_of_not_le h)⟩

/-! ### What a machine is built from -/

/-- Two machines with the same configuration, displays, buzzer and keys. -/
structure BuiltAlike (m n : Machine η) : Prop where
  config : n.config = m.config
  displays : n.displays = m.displays
  buzzer : n.buzzer = m.buzzer
  keys : n.keys = m.keys

theorem BuiltAlike.trans {m n o : Machine η} (h : m.BuiltAlike n) (h' : n.BuiltAlike o) :
    m.BuiltAlike o where
  config := h'.config.trans h.config
  displays := h'.displays.trans h.displays
  buzzer := h'.buzzer.trans h.buzzer
  keys := h'.keys.trans h.keys

theorem builtAlike_tick (m : Machine η) : m.BuiltAlike m.tick.machine := by
  rcases m.machine_tick_cases with ⟨-, hm⟩ | ⟨e, -, -, hm⟩ | ⟨i, r, -, -, hm⟩
  · rw [hm]; exact ⟨rfl, rfl, rfl, rfl⟩
  · rw [hm]; exact ⟨rfl, rfl, rfl, rfl⟩
  · rw [hm]; exact ⟨rfl, rfl, rfl, rfl⟩

theorem builtAlike_reset (m : Machine η) : m.BuiltAlike m.reset.machine := by
  obtain ⟨r, hr⟩ := m.machine_reset
  rw [hr]
  exact ⟨rfl, rfl, rfl, rfl⟩

end Machine

end ChipEight
