import ChipEight.State
import ChipEight.Status

/-!
# Log records

What the machine and its surroundings report, each kind of record with a fixed level and a fixed
wording.

* `Level`, `Level.name`;
* `LogRecord`, `LogRecord.level`, `LogRecord.message`;
* `LogRecord.line?`: the line shown at a given verbosity;
* `Logger`, `Logger.text`: what makes lines of records, and the text of some records.
-/

namespace ChipEight

/-- How important a record is, the most important level first. -/
inductive Level
  | error
  | warn
  | info
  | debug
  | trace
  deriving DecidableEq, Repr

namespace Level

/-- The word that stands for a level. -/
def name : Level → String
  | error => "ERROR"
  | warn => "WARN"
  | info => "INFO"
  | debug => "DEBUG"
  | trace => "TRACE"

/-- The place of a level, counted from the most important one. -/
def rank : Level → Nat
  | error => 1
  | warn => 2
  | info => 3
  | debug => 4
  | trace => 5

end Level

/-- One report. -/
inductive LogRecord
  /-- A word is about to be executed, with these registers. -/
  | executing (opcode : UInt16) (registers : Vector UInt8 registerCount) (index pc : UInt16)
  /-- The picture is about to be shown on this many displays. -/
  | showing (displays : Nat)
  | exited (code : Fin 16)
  | halting (pc : UInt16) (fault : Fault)
  | machineReset
  | programLoaded (size : Nat)
  | running (tickRate : UInt32)
  | stopped (ticks : Nat)
  /-- A key event with the code of no key. -/
  | keyIgnored (code : UInt8)
  | rendering
  /-- A display could not show a picture. -/
  | renderFailed (reason : String)
  /-- The bell is about to ring. -/
  | toneOn
  /-- A session has ended with this status. -/
  | finished (status : Status)
  deriving DecidableEq

namespace LogRecord

/-- The level of a record. -/
def level : LogRecord → Level
  | executing .. => .trace
  | showing .. => .debug
  | exited .. => .info
  | halting .. => .error
  | machineReset => .info
  | programLoaded .. => .info
  | running .. => .info
  | stopped .. => .info
  | keyIgnored .. => .warn
  | rendering => .trace
  | renderFailed .. => .warn
  | toneOn => .debug
  | finished .. => .info

/-- Two-digit hexadecimal bytes between brackets. -/
def byteList (bs : List UInt8) : String :=
  "[" ++ ", ".intercalate (bs.map fun b => Text.hex 2 b.toNat) ++ "]"

/-- The wording of a record. -/
def message : LogRecord → String
  | executing opcode registers index pc =>
      Text.hex 4 opcode.toNat ++ " v" ++ byteList registers.toList ++
        " i" ++ Text.hex 4 index.toNat ++ " pc" ++ Text.hex 4 pc.toNat
  | showing displays => "Flushing frame to " ++ toString displays ++ " displays"
  | exited code => "Program exited [code: " ++ toString code.val ++ "]"
  | halting pc fault => "Halting at pc " ++ Text.address pc.toNat ++ ": " ++ fault.message
  | machineReset => "Reset machine"
  | programLoaded size => "Loaded ROM [size: " ++ toString size ++ "]"
  | running tickRate => "Running at " ++ toString tickRate.toNat ++ "Hz"
  | stopped ticks => "Stopped after " ++ toString ticks ++ " ticks"
  | keyIgnored code => "ignoring key code 0x" ++ Text.hex 2 code.toNat ++ " outside of the keypad"
  | rendering => "Rendering frame"
  | renderFailed reason => "Failed to render frame: " ++ reason
  | toneOn => "Tone on"
  | finished status => "Finished with " ++ status.description

/-- The line for a record, if its level is among those up to `verbosity`. -/
def line? (verbosity : Option Level) (r : LogRecord) : Option String :=
  match verbosity with
  | none => none
  | some v => if r.level.rank ≤ v.rank then some (r.level.name ++ " " ++ r.message) else none

end LogRecord

/-- What makes lines of records.  Which records are shown, and what a line says besides the wording
of its record, such as the time, is up to the logger; it is told how many records there have been
before. -/
structure Logger where
  line? : Nat → LogRecord → Option String

namespace Logger

/-- A logger that shows nothing. -/
def silent : Logger := ⟨fun _ _ => none⟩

/-- A logger that shows records up to a verbosity, each by its level and its wording. -/
def upTo (verbosity : Option Level) : Logger := ⟨fun _ r => r.line? verbosity⟩

/-- The text for some records, of which there have been `n` before. -/
def text (l : Logger) (n : Nat) : List LogRecord → String
  | [] => ""
  | r :: rs =>
      match l.line? n r with
      | none => l.text (n + 1) rs
      | some line => line ++ "\n" ++ l.text (n + 1) rs

end Logger

end ChipEight
