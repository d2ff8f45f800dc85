import ChipEight.State

/-!
# Instructions

The instruction set as a type of its own, and the fields of a word from which an instruction is
read.  A word has four hexadecimal digits, called `group`, `x`, `y` and `n`; its low byte is `y`
and `n` together, its target the last three.

* `Opcode.group`, `Opcode.x`, `Opcode.y`, `Opcode.n`, `Opcode.byte`, `Opcode.target`;
* `Condition`: what a skip tests;
* `Arithmetic`: the operations on two registers;
* `Instruction`.
-/

namespace ChipEight

namespace Opcode

theorem mod_lt_sixteen (k : Nat) : k % 16 < 16 := Nat.mod_lt k (Nat.succ_pos 15)

/-- The last hexadecimal digit of a number. -/
def digit (k : Nat) : Fin 16 := ⟨k % 16, mod_lt_sixteen k⟩

/-- The first digit. -/
def group (op : UInt16) : Fin 16 := digit (op.toNat / 4096)

/-- The second digit, most often the number of a register. -/
def x (op : UInt16) : Fin 16 := digit (op.toNat / 256)

/-- The third digit, most often the number of a register. -/
def y (op : UInt16) : Fin 16 := digit (op.toNat / 16)

/-- The last digit. -/
def n (op : UInt16) : Fin 16 := digit op.toNat

/-- The last two digits. -/
def byte (op : UInt16) : UInt8 := op.toUInt8

/-- The last three digits. -/
def target (op : UInt16) : Address := Address.ofWord op

@[simp] theorem val_group (op : UInt16) : (group op).val = op.toNat / 4096 % 16 := rfl

@[simp] theorem val_x (op : UInt16) : (x op).val = op.toNat / 256 % 16 := rfl

@[simp] theorem val_y (op : UInt16) : (y op).val = op.toNat / 16 % 16 := rfl

@[simp] theorem val_n (op : UInt16) : (n op).val = op.toNat % 16 := rfl

@[simp] theorem toNat_byte (op : UInt16) : (byte op).toNat = op.toNat % 256 := by
  simp [byte]

end Opcode

/-- What a skip instruction tests. -/
inductive Condition
  | equalsByte (x : Register) (b : UInt8)
  | differsFromByte (x : Register) (b : UInt8)
  | equals (x y : Register)
  | differs (x y : Register)
  | keyPressed (x : Register)
  | keyReleased (x : Register)
  deriving DecidableEq, Repr

/-- An operation of the group `8XYN`; its result goes to `VX`. -/
inductive Arithmetic
  | copy
  | or
  | and
  | xor
  | add
  | subtract
  | shiftRight
  | subtractFrom
  | shiftLeft
  deriving DecidableEq, Repr

/-- An instruction with its operands. -/
inductive Instruction
  /-- End the program with a code. -/
  | exit (code : Fin 16)
  /-- Make the picture dark. -/
  | clear
  /-- Go on after the latest call. -/
  | ret
  | jump (target : Address)
  | call (target : Address)
  /-- Pass over the next instruction if the condition holds. -/
  | skip (condition : Condition)
  | load (x : Register) (b : UInt8)
  /-- Add a byte to a register; the carry is lost. -/
  | addByte (x : Register) (b : UInt8)
  | arithmetic (operation : Arithmetic) (x y : Register)
  | loadIndex (target : Address)
  /-- Jump to a byte plus a register. -/
  | jumpOffset (x : Register) (b : UInt8)
  /-- Put a random byte, masked, into a register. -/
  | random (x : Register) (mask : UInt8)
  /-- Draw the sprite at the index register at the position that two registers give. -/
  | draw (x y : Register) (rows : Fin 16)
  | readDelay (x : Register)
  | setDelay (x : Register)
  | setSound (x : Register)
  | addIndex (x : Register)
  /-- Point the index register at the glyph of a register's value. -/
  | glyph (x : Register)
  /-- Write the three decimal digits of a register to memory. -/
  | decimal (x : Register)
  /-- Write the registers up to a given one to memory. -/
  | saveRegisters (last : Register)
  /-- Read the registers up to a given one from memory. -/
  | loadRegisters (last : Register)
  deriving DecidableEq, Repr

end ChipEight
