import ChipEight.Fault

/-!
# Statuses

* `Status`: ready, exited or faulted;
* `Status.description`: a status as reports name it.
-/

namespace ChipEight

/-- Whether a machine still executes instructions, and if not, why. -/
inductive Status
  | ready
  | exited (code : Fin 16)
  | faulted (fault : Fault)
  deriving DecidableEq, Repr

/-- A fault by its kind and its numbers in decimal digits. -/
def Fault.description : Fault → String
  | outOfBounds address => "OutOfBounds \x7b address: " ++ toString address ++ " \x7d"
  | stackUnderflow => "StackUnderflow"
  | stackOverflow limit => "StackOverflow \x7b limit: " ++ toString limit ++ " \x7d"
  | unrecognizedOpcode opcode => "UnrecognizedOpcode(" ++ toString opcode.toNat ++ ")"

/-- A status as reports name it. -/
def Status.description : Status → String
  | ready => "Ready"
  | exited code => "Exited(" ++ toString code.val ++ ")"
  | faulted fault => "Faulted(" ++ fault.description ++ ")"

end ChipEight
