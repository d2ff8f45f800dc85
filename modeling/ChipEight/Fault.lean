import ChipEight.Text.Hex

/-!
# Faults

The four ways in which an instruction can be refused.  A faulting instruction has no other
effect: every operation that may fail returns either a fault or its result.

* `Fault`: the causes;
* `Fault.message`: their wording.
-/

namespace ChipEight

/-- The cause for which an instruction, a load or an access to memory was refused. -/
inductive Fault
  /-- An access that leaves the memory; it names the first address of the access, or the first
  address past the end of memory if that is larger. -/
  | outOfBounds (address : Nat)
  /-- A return while no call is pending. -/
  | stackUnderflow
  /-- A call while `limit` or more calls are pending. -/
  | stackOverflow (limit : Nat)
  /-- A word that is no instruction. -/
  | unrecognizedOpcode (opcode : UInt16)
  deriving DecidableEq, Repr

namespace Fault

/-- The text shown for a fault. -/
def message : Fault → String
  | outOfBounds a => "memory access out of bounds at " ++ Text.address a
  | stackUnderflow => "return from subroutine with an empty call stack"
  | stackOverflow limit =>
      "call stack exceeded its limit of " ++ toString limit ++ " return addresses"
  | unrecognizedOpcode op => "unrecognized opcode " ++ Text.address op.toNat

instance : ToString Fault := ⟨message⟩

end Fault

end ChipEight
