/-!
# Dialects

Interpreters differ on three points, and a program may depend on the answer.

* `Dialect`: one choice for each of the three;
* `ShiftOperand`: which register a shift reads;
* `KeySelector`: where a key instruction finds the code of its key.
-/

namespace ChipEight

/-- The register that a shift `8XY6` or `8XYE` reads. -/
inductive ShiftOperand
  | y
  | x
  deriving DecidableEq, Repr

/-- What names the key of `EX9E` and `EXA1`: the digit `X` itself, or register `VX`. -/
inductive KeySelector
  | digit
  | register
  deriving DecidableEq, Repr

/-- The number of calls that may be pending unless a dialect says otherwise. -/
def defaultStackLimit : Nat := 16

/-- A choice among the historical readings of the instruction set. -/
structure Dialect where
  shiftOperand : ShiftOperand := .y
  keySelector : KeySelector := .digit
  /-- The number of calls that may be pending; `none` for no bound. -/
  stackLimit : Option Nat := some defaultStackLimit
  deriving DecidableEq, Repr

end ChipEight
