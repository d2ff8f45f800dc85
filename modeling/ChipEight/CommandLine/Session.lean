import ChipEight.CommandLine.Console
import ChipEight.CommandLine.Keymap
import ChipEight.CommandLine.Options
import ChipEight.Machine.Command

/-!
# Sessions

What the program does from its arguments to its exit code.  It reads the options, holds the keys
down, loads the file, and runs the machine with a terminal display and a bell; the code with
which the machine exited is its own exit code.  What it writes is passed on after each tick, and so
are its reports, which a logger puts on standard error.

* `Failure`: why a session fails, `Failure.message`: the wording;
* `Session.boot`: the machine of a session with its program loaded, ready to run, and
  `Session.bootReading`: the same with the file still to be read;
* `Output`: what has been written so far, `Output.collect`: what a call adds;
* `Session`: a run under way, `Session.start`, `Session.advance`, `Session.isOver`, `Session.close`:
  its beginning, one tick more, when there is none, and its end;
* `Session.main?`: all of it;
* `Session.follow`: the ticks of a run as they are made in the course of time.
-/

namespace ChipEight

/-- Why a file could not be read: the system's description and number of the error. -/
structure ReadError where
  reason : String
  code : Nat
  deriving DecidableEq, Repr

/-- Why a session fails. -/
inductive Failure
  /-- A character of the keys to hold belongs to no key. -/
  | unmapped (key : Char)
  | unreadable (path : String) (error : ReadError)
  /-- The program does not fit, or a tick faulted. -/
  | fault (cause : Fault)
  deriving DecidableEq, Repr

/-- The wording of a failure. -/
def Failure.message : Failure → String
  | unmapped key => "no keypad key is mapped to '" ++ key.toString ++ "'"
  | unreadable path error =>
      "unable to read " ++ path ++ ": " ++ error.reason ++
        " (os error " ++ toString error.code ++ ")"
  | fault cause => cause.message

/-- How a program ends. -/
inductive Ending
  /-- The arguments led to no run. -/
  | usage (error : UsageError)
  /-- The session ended with this exit code, and this is what it wrote. -/
  | exited (code : Nat) (stdout : ByteArray) (stderr : String)

namespace Session

/-- Hold down the keys at some characters, up to the first character that has none. -/
def hold (p : Keypad) : List Char → Except Failure Keypad
  | [] => .ok p
  | c :: cs =>
      match Keymap.code? c with
      | none => .error (.unmapped c)
      | some k => hold (p.press k) cs

/-- A machine with a program in memory, a bell and, unless it is headless, a display. -/
def assemble (options : Options) (keypad : Keypad) (rom : List UInt8) (entropy : ChaCha.Key) :
    Except Failure (Outcome Console Unit) :=
  let m := Machine.create options.config entropy Console.keys { keypad := keypad }
  let o := m.loadProgram rom
  match o.value with
  | .error e => .error (.fault e)
  | .ok () =>
      let m := if options.headless then o.machine else o.machine.addDisplay Console.display
      .ok ⟨m.setBuzzer Console.bell, o.events, ()⟩

/-- The machine of a session once its program has been loaded, given the contents of the file that
the options name. -/
def boot (options : Options) (contents : Except ReadError (List UInt8)) (entropy : ChaCha.Key) :
    Except Failure (Outcome Console Unit) :=
  match hold Keypad.released options.hold.toList with
  | .error e => .error e
  | .ok keypad =>
      match contents with
      | .error e => .error (.unreadable options.rom e)
      | .ok rom => assemble options keypad rom entropy

/-- The machine of a session, ready to run. -/
def prepare (options : Options) (contents : Except ReadError (List UInt8)) (entropy : ChaCha.Key) :
    Except Failure (Machine Console) :=
  (boot options contents entropy).map Outcome.machine

/-- The machine of a session whose file is read on demand, which is after the keys have been
looked up. -/
def bootReading {μ : Type → Type} [Monad μ] (options : Options)
    (read : String → μ (Except ReadError (List UInt8))) (entropy : ChaCha.Key) :
    μ (Except Failure (Outcome Console Unit)) :=
  match hold Keypad.released options.hold.toList with
  | .error e => pure (.error e)
  | .ok _ => do return boot options (← read options.rom) entropy

/-- The line on standard error for a failure. -/
def errorLine (e : Failure) : String := "chip8: " ++ e.message ++ "\n"

/-- The exit code that belongs to the status with which a run has ended. -/
def exitCode : Status → Nat
  | .exited code => code.val
  | _ => 0

/-- The end of a session that fails before its run. -/
def abort (e : Failure) : Ending := .exited 1 .empty (errorLine e)

end Session

/-! ### Runs -/

/-- What a session has written, and how many reports there have been. -/
structure Output where
  stdout : ByteArray := .empty
  stderr : String := ""
  logged : Nat := 0

namespace Output

/-- Add what a call has reported, and what its console has received meanwhile.  What is written to
the console's standard error, the bell of a tick, comes after all reports. -/
def collect {α : Type} (l : Logger) (w : Output) (o : Outcome Console α) : Output :=
  let rs := o.records
  let c := o.machine.host
  { stdout := w.stdout ++ c.stdout.accepted
    stderr := w.stderr ++ l.text w.logged rs ++ c.stderr
    logged := w.logged + rs.length }

/-- The output once readers have taken it. -/
def drained (w : Output) : Output := { logged := w.logged }

end Output

/-- The machine once readers have taken what its console has received. -/
def Machine.drained (m : Machine Console) : Machine Console := { m with host := m.host.drained }

/-- The same ticks once what they have written and reported has been taken. -/
def Progress.drained (p : Progress Console) : Progress Console :=
  { p with outcome := ⟨p.outcome.machine.drained, #[], p.outcome.value⟩ }

/-- A session whose run is under way. -/
structure Session where
  /-- The ticks so far, drained after each of them. -/
  progress : Progress Console
  output : Output

namespace Session

/-- The session after a call: what has been written and reported is taken from the console. -/
def passOn (l : Logger) (w : Output) (p : Progress Console) : Session :=
  ⟨p.drained, w.collect l p.outcome⟩

/-- The beginning of the run that follows `o`. -/
def start (l : Logger) (o : Outcome Console Unit) : Session :=
  let p := o.machine.beginRun
  passOn l {} { p with outcome := o.andThen fun _ => p.outcome }

/-- One tick more. -/
def advance (l : Logger) (s : Session) : Session := passOn l s.output s.progress.advance

/-- Whether the run makes no further tick, `bound` being the greatest number of them. -/
def isOver (bound : Option Nat) (s : Session) : Bool :=
  s.progress.isOver || bound.any (· ≤ s.progress.ticks)

/-- The session when its run is over, if that is within `fuel` ticks. -/
def runWithin? (l : Logger) (bound : Option Nat) (s : Session) : Nat → Option Session
  | 0 => if s.isOver bound then some s else none
  | fuel + 1 => if s.isOver bound then some s else (s.advance l).runWithin? l bound fuel

/-- The session once readers have taken its output. -/
def drained (s : Session) : Session := { s with output := s.output.drained }

/-- Wait for the time of the next tick, if the last one has not halted the machine. -/
def pause {μ : Type → Type} [Monad μ] (wait : Config → μ Unit) (s : Session) : μ Unit :=
  if s.progress.halted then pure () else wait s.progress.outcome.machine.config

/-- The session when its run is over, or after `fuel` ticks.  What a tick leaves is passed on by
`emit`, and then the time of the next one is awaited. -/
def follow {μ : Type → Type} [Monad μ] (l : Logger) (bound : Option Nat) (emit : Output → μ Unit)
    (wait : Config → μ Unit) (s : Session) : Nat → μ Session
  | 0 => pure s
  | fuel + 1 =>
      if s.isOver bound then pure s
      else do
        let s := s.advance l
        emit s.output
        s.pause wait
        s.drained.follow l bound emit wait fuel

/-- The end of a session whose run is over. -/
def close (l : Logger) (s : Session) : Ending :=
  let o := s.progress.finish
  let w := s.output.collect l o
  match o.value with
  | .ok st => .exited (exitCode st) w.stdout (w.stderr ++ l.text w.logged [.finished st])
  | .error e => .exited 1 w.stdout (w.stderr ++ errorLine (.fault e))

/-- The whole program: its arguments without its own name, the files, a key for when no seed is
chosen, and the number of ticks for which a run without a bound is followed. -/
def main? (l : Logger) (words : List String) (files : String → Except ReadError (List UInt8))
    (entropy : ChaCha.Key) (fuel : Nat) : Option Ending :=
  match Options.parse words with
  | .error e => some (.usage e)
  | .ok options =>
      match boot options (files options.rom) entropy with
      | .error e => some (abort e)
      | .ok o =>
          ((start l o).runWithin? l options.maxTicks (options.maxTicks.getD fuel)).map (close l)

end Session

end ChipEight
