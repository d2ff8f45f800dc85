import ChipEight.Machine.Basic

/-!
# Ticks

A tick of a ready machine fetches a word, executes it, does what the instruction asked for,
counts both timers down and tells the buzzer.  A fault ends it before anything has changed
but the status.  A tick of a machine that is not ready does nothing.

* `Machine.halt`, `Machine.perform`, `Machine.complete`, `Machine.executeNext`;
* `Machine.tick`.
-/

namespace ChipEight.Machine

variable {η : Type}

/-- The result of a call: a status, or the fault that ended it. -/
abbrev Result := Except Fault Status

/-- Become faulted; nothing else changes. -/
def halt (m : Machine η) (e : Fault) : Outcome η Result :=
  ⟨{ m with status := .faulted e }, #[.log (.halting m.state.pc e)], .error e⟩

/-- Do what an executed instruction asks for. -/
def perform (m : Machine η) : Effect → Outcome η Unit
  | .proceed => m.idle
  | .redraw => m.showFrame
  | .exit code =>
      (m.report (.exited code)).andThen fun m => Machine.idle { m with status := .exited code }

/-- Count both timers down. -/
def countDown (m : Machine η) : Outcome η Unit := Machine.idle { m with state := m.state.countDown }

/-- Ask for the status. -/
def askStatus (m : Machine η) : Outcome η Result := ⟨m, #[], .ok m.status⟩

/-- Report the word about to be executed. -/
def reportOpcode (m : Machine η) (op : UInt16) : Outcome η Unit :=
  m.report (.executing op m.state.registers m.state.index m.state.pc)

/-- The rest of a tick once its instruction has been executed. -/
def complete (m : Machine η) (e : Effect) : Outcome η Result :=
  (((m.perform e).andThen countDown).andThen soundBuzzer).andThen askStatus

/-- The rest of a tick once its instruction has been executed or refused. -/
def conclude (m : Machine η) : Except Fault Effect → Outcome η Result
  | .error e => m.halt e
  | .ok e => m.complete e

/-- The machine with the state and the random source that an instruction left. -/
def adopt (m : Machine η) (x : Executed) : Machine η :=
  { m with state := x.state, random := x.random }

/-- Fetch a word, execute it and see to its consequences. -/
def executeNext (m : Machine η) : Outcome η Result :=
  match m.state.fetch with
  | .error e => m.halt e
  | .ok op =>
      (m.reportOpcode op).andThen fun m =>
        let x := execute m.surroundings m.random m.state op
        (m.adopt x).conclude x.value

/-- One tick.  A machine that is not ready stays as it is and answers with its status, which for a
faulted one is its fault. -/
def tick (m : Machine η) : Outcome η Result :=
  match m.status with
  | .ready => m.executeNext
  | .exited code => ⟨m, #[], .ok (.exited code)⟩
  | .faulted e => ⟨m, #[], .error e⟩

theorem tick_of_exited {m : Machine η} {code : Fin 16} (h : m.status = .exited code) :
    m.tick = ⟨m, #[], .ok (.exited code)⟩ := by
  unfold tick; rw [h]

theorem tick_of_faulted {m : Machine η} {e : Fault} (h : m.status = .faulted e) :
    m.tick = ⟨m, #[], .error e⟩ := by
  unfold tick; rw [h]

end ChipEight.Machine
