import ChipEight.Machine.Run

/-!
# Commands

Everything that can be done to a machine between two ticks or instead of them, as data.  What can
be reached is what some list of commands leads to.

* `Machine.reset`, `Machine.loadProgram`, `Machine.addDisplay`, `Machine.setBuzzer`,
  `Machine.requestStop`, `Machine.updateHost`;
* `Command`, `Command.perform?`.
-/

namespace ChipEight

namespace Machine

variable {η : Type}

/-- Go back to the state at power on, ready, and show the dark picture. -/
def reset (m : Machine η) : Outcome η Unit :=
  (Machine.report { m with state := m.state.reset, status := .ready } .machineReset).andThen
    showFrame

/-- Put a program into memory; nothing else changes, the status included. -/
def loadProgram (m : Machine η) (rom : List UInt8) : Outcome η (Except Fault Unit) :=
  let t := m.state.loadProgram rom
  ⟨{ m with state := t.state },
    match t.value with
    | .ok () => #[.log (.programLoaded rom.length)]
    | .error _ => #[],
    t.value⟩

/-- Add a display after those there are. -/
def addDisplay (m : Machine η) (d : Display η) : Machine η :=
  { m with displays := m.displays ++ [d] }

/-- Put a buzzer in the place of the one there is. -/
def setBuzzer (m : Machine η) (b : Buzzer η) : Machine η := { m with buzzer := some b }

/-- Ask for the next run to end before its next tick. -/
def requestStop (m : Machine η) : Machine η := { m with stopRequested := true }

/-- Let the host change between two calls, for instance because a key was pressed. -/
def updateHost (m : Machine η) (f : η → Reply η) : Outcome η Unit := m.accept (f m.host)

end Machine

/-- A call on a machine. -/
inductive Command (η : Type)
  | loadProgram (rom : List UInt8)
  | reset
  | tick
  | step (n : Nat)
  /-- A run of up to `n` ticks. -/
  | runFor (n : Nat)
  /-- A run without a budget, followed for at most `fuel` ticks. -/
  | start (fuel : Nat)
  | requestStop
  | addDisplay (display : Display η)
  | setBuzzer (buzzer : Buzzer η)
  | updateHost (change : η → Reply η)

namespace Command

variable {η : Type}

/-- What a command returns: a fault, a status, or nothing of interest. -/
abbrev Answer := Except Fault (Option Status)

/-- A command without an answer of interest. -/
def silently (o : Outcome η Unit) : Outcome η Answer := ⟨o.machine, o.events, .ok none⟩

/-- A command that answers with a status or a fault. -/
def withStatus (o : Outcome η Machine.Result) : Outcome η Answer :=
  ⟨o.machine, o.events, o.value.map some⟩

/-- Perform a command; `none` if it is a run without a budget that is not over within its fuel. -/
def perform? (m : Machine η) : Command η → Option (Outcome η Answer)
  | loadProgram rom =>
      let o := m.loadProgram rom
      some ⟨o.machine, o.events, o.value.map fun _ => none⟩
  | reset => some (silently m.reset)
  | tick => some (withStatus m.tick)
  | step n => some (withStatus (m.step n))
  | runFor n => some (withStatus (m.runFor n))
  | start fuel => (m.runWithin? fuel).map withStatus
  | requestStop => some (silently m.requestStop.idle)
  | addDisplay display => some (silently (m.addDisplay display).idle)
  | setBuzzer buzzer => some (silently (m.setBuzzer buzzer).idle)
  | updateHost change => some (silently (m.updateHost change))

/-- Perform commands one after another; the answer of each is dropped. -/
def performAll? (m : Machine η) : List (Command η) → Option (Outcome η Unit)
  | [] => some m.idle
  | c :: cs =>
      match c.perform? m with
      | none => none
      | some o =>
          (performAll? o.machine cs).map fun p => ⟨p.machine, o.events ++ p.events, ()⟩

end Command

end ChipEight
