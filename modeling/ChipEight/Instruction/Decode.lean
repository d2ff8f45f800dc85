import ChipEight.Instruction.Basic

/-!
# Decoding

The first digit of a word selects a group; some groups look at further digits.

* `Instruction.decode?`: the instruction of a word, or `none`.
-/

namespace ChipEight.Instruction

open Opcode

/-- The group `0`: leaving the program, the picture and the call stack. -/
def decodeControl? (op : UInt16) : Option Instruction :=
  if op = 0x00E0 then some .clear
  else if op = 0x00EE then some .ret
  else if (y op).val = 1 then some (.exit (n op))
  else none

/-- The operation of the group `8XYN` with last digit `n`. -/
def arithmetic? : Nat → Option Arithmetic
  | 0x0 => some .copy
  | 0x1 => some .or
  | 0x2 => some .and
  | 0x3 => some .xor
  | 0x4 => some .add
  | 0x5 => some .subtract
  | 0x6 => some .shiftRight
  | 0x7 => some .subtractFrom
  | 0xE => some .shiftLeft
  | _ => none

/-- The group `E`: skips on keys. -/
def decodeKey? (op : UInt16) : Option Instruction :=
  match (byte op).toNat with
  | 0x9E => some (.skip (.keyPressed (x op)))
  | 0xA1 => some (.skip (.keyReleased (x op)))
  | _ => none

/-- The group `F`: timers, the index register and transfers to and from memory. -/
def decodeTransfer? (op : UInt16) : Option Instruction :=
  match (byte op).toNat with
  | 0x07 => some (.readDelay (x op))
  | 0x15 => some (.setDelay (x op))
  | 0x18 => some (.setSound (x op))
  | 0x1E => some (.addIndex (x op))
  | 0x29 => some (.glyph (x op))
  | 0x33 => some (.decimal (x op))
  | 0x55 => some (.saveRegisters (x op))
  | 0x65 => some (.loadRegisters (x op))
  | _ => none

/-- The instruction of a word, if it is one. -/
def decode? (op : UInt16) : Option Instruction :=
  match (group op).val with
  | 0x0 => decodeControl? op
  | 0x1 => some (.jump (target op))
  | 0x2 => some (.call (target op))
  | 0x3 => some (.skip (.equalsByte (x op) (byte op)))
  | 0x4 => some (.skip (.differsFromByte (x op) (byte op)))
  | 0x5 => if (n op).val = 0 then some (.skip (.equals (x op) (y op))) else none
  | 0x6 => some (.load (x op) (byte op))
  | 0x7 => some (.addByte (x op) (byte op))
  | 0x8 => (arithmetic? (n op).val).map fun o => .arithmetic o (x op) (y op)
  | 0x9 => if (n op).val = 0 then some (.skip (.differs (x op) (y op))) else none
  | 0xA => some (.loadIndex (target op))
  | 0xB => some (.jumpOffset (x op) (byte op))
  | 0xC => some (.random (x op) (byte op))
  | 0xD => some (.draw (x op) (y op) (n op))
  | 0xE => decodeKey? op
  | _ => decodeTransfer? op

end ChipEight.Instruction
