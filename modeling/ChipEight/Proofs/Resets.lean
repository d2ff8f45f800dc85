import ChipEight.Proofs.Bounds
import ChipEight.Proofs.Variations

/-!
# What a reset leaves behind

After a reset the state and the status are those at power on.  Beside configuration, displays,
buzzer, keys and host only two things outlive it: the random source goes on where it was, and a
request to stop stays pending.  The machine could as well have been built anew; the request apart,
which only a run can notice, no commands tell the two apart.

* `Command.Observation`, `Command.observations`: what can be seen of commands;
* `Command.observations_varied`: commands without a run do not show whether a stop is requested;
* `Machine.rebuilt`: a machine built with the same surroundings, its random source as far on;
* `Machine.machine_reset_eq_varied`: a reset leads there, but for the request;
* `Machine.byte_loadProgram`: the memory after a load;
* `reset_erases_history`: the main result.
-/

namespace ChipEight

/-! ### Observations -/

namespace Command

variable {η : Type}

/-- What can be seen of a command that has been performed. -/
structure Observation (η : Type) where
  answer : Answer
  events : Array Event
  state : State
  status : Status
  host : η

/-- What can be seen of an outcome. -/
def observe (o : Outcome η Answer) : Observation η where
  answer := o.value
  events := o.events
  state := o.machine.state
  status := o.machine.status
  host := o.machine.host

/-- What can be seen of commands, up to the first that does not come to an end. -/
def observations (m : Machine η) : List (Command η) → List (Observation η)
  | [] => []
  | c :: cs =>
      match c.perform? m with
      | none => []
      | some o => observe o :: observations o.machine cs

/-- Commands without a run do not show whether a stop is requested. -/
theorem observations_varied {config : Config} {m : Machine η} {cs : List (Command η)}
    (hd : config.dialect = m.config.dialect) (stop : Bool) (hcs : ∀ c ∈ cs, c.isRun = false) :
    observations (m.varied config stop) cs = observations m cs := by
  induction cs generalizing m with
  | nil => rfl
  | cons c cs ih =>
    unfold observations
    rw [perform?_varied hd stop (hcs c List.mem_cons_self)]
    cases hc : c.perform? m with
    | none => rfl
    | some o =>
      have hd' : config.dialect = o.machine.config.dialect := by
        rw [config_of_perform? hc]; exact hd
      have hrest := ih hd' fun d hd => hcs d (List.mem_cons_of_mem c hd)
      exact congrArg (observe o :: ·) hrest

end Command

/-! ### The machine after a reset -/

namespace Machine

variable {η : Type}

/-- A machine built with the configuration, keys, displays and buzzer of another, and with a random
source that is as far on. -/
def rebuilt (m : Machine η) (entropy : ChaCha.Key) (host : η) : Machine η :=
  let silent := m.displays.foldl addDisplay (create m.config entropy m.keys host)
  let whole :=
    match m.buzzer with
    | none => silent
    | some b => silent.setBuzzer b
  { whole with random := m.random }

theorem foldl_addDisplay (m : Machine η) (ds : List (Display η)) :
    ds.foldl addDisplay m = { m with displays := m.displays ++ ds } := by
  induction ds generalizing m with
  | nil => simp
  | cons d ds ih => simp [ih, addDisplay]

theorem rebuilt_eq (m : Machine η) (entropy : ChaCha.Key) (host : η) :
    m.rebuilt entropy host =
      { m with
        state := State.initial
        status := .ready
        stopRequested := false
        host := host } := by
  unfold rebuilt
  rw [foldl_addDisplay]
  cases m.buzzer with
  | none => simp [create]
  | some b => simp [create, setBuzzer]

/-- Of the history before a reset nothing is left but the host, the random source and a request to
stop. -/
theorem machine_reset_eq_varied (m : Machine η) (entropy : ChaCha.Key) :
    m.reset.machine =
      (m.rebuilt entropy m.reset.machine.host).varied m.config m.reset.machine.stopRequested := by
  obtain ⟨r, hr⟩ := m.machine_reset
  rw [hr, rebuilt_eq]
  rfl

/-- After a reset a machine is indistinguishable from one built anew, if a run is not to notice that
a stop has been requested. -/
theorem observations_reset (m : Machine η) (entropy : ChaCha.Key) {cs : List (Command η)}
    (h : m.reset.machine.stopRequested = true → ∀ c ∈ cs, c.isRun = false) :
    Command.observations m.reset.machine cs =
      Command.observations (m.rebuilt entropy m.reset.machine.host) cs := by
  have hreset := m.machine_reset_eq_varied entropy
  have hconfig : (m.rebuilt entropy m.reset.machine.host).config = m.config := by rw [rebuilt_eq]
  generalize m.rebuilt entropy m.reset.machine.host = fresh at hreset hconfig ⊢
  cases hstop : m.reset.machine.stopRequested with
  | true =>
    rw [hreset]
    exact Command.observations_varied (by rw [hconfig]) _ (h hstop)
  | false => rw [hreset, hstop, ← hconfig, varied_self]

end Machine

/-! ### Memory after a load -/

theorem State.byte_initial_of_le {k : ℕ} (h : Program.start ≤ k) :
    State.initial.memory.byte k = 0 := by
  have hlen : Glyph.sheet.length ≤ k := by
    rw [Glyph.length_sheet]
    exact le_trans (by decide) h
  show (Memory.zero.store 0 Glyph.sheet).byte k = 0
  rw [Memory.byte_store]
  simp [List.getElem?_eq_none hlen]

namespace Machine

variable {η : Type}

theorem byte_loadProgram (m : Machine η) {rom : List UInt8}
    (h : Program.start + rom.length ≤ Memory.size) (k : ℕ) :
    (m.loadProgram rom).machine.state.memory.byte k =
      if k < Program.start then m.state.memory.byte k
      else (rom[k - Program.start]?).getD (m.state.memory.byte k) := by
  rw [m.machine_loadProgram_of_le h]
  show (m.state.memory.store Program.start rom).byte k = _
  rw [Memory.byte_store]
  by_cases hk : k < Program.start
  · rw [if_pos hk, if_neg (by omega)]
  · rw [if_neg hk]
    by_cases hsize : k < Memory.size
    · rw [if_pos ⟨by omega, hsize⟩]
    · have hnone : rom[k - Program.start]? = none := List.getElem?_eq_none (by omega)
      rw [if_neg (by omega), hnone]
      rfl

/-- A load keeps every byte beyond the end of its program, also if it is refused. -/
theorem byte_loadProgram_of_le (m : Machine η) {rom : List UInt8} {k : ℕ}
    (h : Program.start + rom.length ≤ k) :
    (m.loadProgram rom).machine.state.memory.byte k = m.state.memory.byte k := by
  by_cases hfits : Program.start + rom.length ≤ Memory.size
  · rw [m.machine_loadProgram_of_le hfits]
    exact Memory.byte_store_of_outside _ (Or.inr h)
  · rw [m.machine_loadProgram_of_lt (Nat.lt_of_not_le hfits)]

/-- After a reset and a load, memory holds the glyphs, the program and zeros. -/
theorem byte_loadProgram_reset (m : Machine η) {rom : List UInt8}
    (h : Program.start + rom.length ≤ Memory.size) (k : ℕ) :
    (m.reset.machine.loadProgram rom).machine.state.memory.byte k =
      if k < Program.start then State.initial.memory.byte k
      else (rom[k - Program.start]?).getD 0 := by
  rw [byte_loadProgram _ h, state_reset]
  by_cases hk : k < Program.start
  · rw [if_pos hk, if_pos hk]
  · rw [if_neg hk, if_neg hk, State.byte_initial_of_le (Nat.not_lt.1 hk)]

end Machine

/-- **A reset erases all history.**  After it the state and the status are those at power on, and
the machine is indistinguishable from one that has just been built with the same configuration,
displays, buzzer, keys and host, and whose random source stands where this one's stands: any
commands, without a run if a request to stop is pending, return the same answers, cause the same
events, calls of displays and buzzer among them, and leave the same state, status and host after
each.  In particular nothing is left of earlier programs when a program is loaded after a reset,
while a load without one keeps every byte beyond the end of its program. -/
theorem reset_erases_history {η : Type} (m : Machine η) :
    let n := m.reset.machine
    n.state = State.initial ∧ n.status = .ready ∧
      (∀ (entropy : ChaCha.Key) (cs : List (Command η)),
        (n.stopRequested = true → ∀ c ∈ cs, c.isRun = false) →
        Command.observations n cs = Command.observations (m.rebuilt entropy n.host) cs) ∧
      (∀ rom : List UInt8, Program.start + rom.length ≤ Memory.size → ∀ k,
        (n.loadProgram rom).machine.state.memory.byte k =
          if k < Program.start then State.initial.memory.byte k
          else (rom[k - Program.start]?).getD 0) ∧
      ∀ (rom : List UInt8) (k : ℕ), Program.start + rom.length ≤ k →
        (m.loadProgram rom).machine.state.memory.byte k = m.state.memory.byte k := by
  intro n
  exact ⟨m.state_reset, m.status_reset, fun entropy cs h => m.observations_reset entropy h,
    fun rom h k => m.byte_loadProgram_reset h k, fun rom k h => m.byte_loadProgram_of_le h⟩

/-- A program that calls a word which does not exist, and a request to stop. -/
def faultyProgram : List (Command Unit) :=
  [.loadProgram [0x22, 0x02, 0xFF, 0xFF], .step 2, .requestStop]

/-- A faulted machine with a pending return address and a pending request to stop: a reset makes it
new, and a shorter program finds nothing of the longer one. -/
theorem reset_erases_history_faulted :
    ∃ o, Command.performAll? poweredOn faultyProgram = some o ∧
      o.machine.status = .faulted (.unrecognizedOpcode 0xFFFF) ∧ o.machine.state.stack = [0x202] ∧
      let n := o.machine.reset.machine
      n.stopRequested = true ∧
        Command.observations n [.loadProgram [0x12], .step 2, .reset] =
          Command.observations (o.machine.rebuilt ChaCha.zeroKey n.host)
            [.loadProgram [0x12], .step 2, .reset] ∧
        (n.loadProgram [0x12]).machine.state.memory.byte 0x203 = 0 ∧
        (o.machine.loadProgram [0x12]).machine.state.memory.byte 0x203 = 0xFF := by
  have hend : (Command.performAll? poweredOn faultyProgram).map (fun o =>
      (o.machine.status, o.machine.state.stack, o.machine.state.memory.byte 0x203,
        o.machine.reset.machine.stopRequested)) =
      some (.faulted (.unrecognizedOpcode 0xFFFF), [0x202], 0xFF, true) := by
    decide +kernel
  obtain ⟨o, ho, he⟩ := Option.map_eq_some_iff.1 hend
  simp only [Prod.mk.injEq] at he
  obtain ⟨hstatus, hstack, hbyte, hstop⟩ := he
  obtain ⟨-, -, hsame, hreset, hload⟩ := reset_erases_history o.machine
  refine ⟨o, ho, hstatus, hstack, hstop, hsame ChaCha.zeroKey _ fun _ c hc => ?_, ?_, ?_⟩
  · simp only [List.mem_cons, List.not_mem_nil, or_false] at hc
    rcases hc with rfl | rfl | rfl <;> rfl
  · rw [hreset [0x12] (by decide)]
    rfl
  · rw [hload [0x12] 0x203 (by decide), hbyte]

end ChipEight
