import ChipEight.Dialect
import ChipEight.Instruction.Decode
import ChipEight.Random.Source
import ChipEight.Sprite

/-!
# Executing one instruction

An instruction changes the state step by step and may be refused with a fault on the way; all
that can be refused is done before anything has changed.

* `Surroundings`: what an instruction can ask of its surroundings, the dialect and the keys;
* `Effect`: what the surroundings are asked to do afterwards;
* `Executed`: an effect or a fault, and the state and the random source that are left;
* `Instruction.execute`: one instruction;
* `execute`: one word, decoded first.

Of the operations that set a flag, `8XY7` writes VF last and all others write it first, so with
`X = F` the flag survives in that one only.
-/

namespace ChipEight

/-- What an instruction can ask of its surroundings. -/
structure Surroundings where
  dialect : Dialect
  /-- Whether the key with a given code is pressed. -/
  keys : UInt8 → Bool

/-- What an executed instruction asks of its surroundings. -/
inductive Effect
  /-- Nothing. -/
  | proceed
  /-- Show the picture. -/
  | redraw
  /-- End the program. -/
  | exit (code : Fin 16)
  deriving DecidableEq, Repr

/-- The result of an instruction: its effect or the fault that refused it, and what it left. -/
structure Executed extends Attempt Effect where
  random : RandomSource

/-! ### Conditions -/

/-- The code of the key that a key instruction with digit `x` asks for. -/
def Surroundings.keyCode (c : Surroundings) (s : State) (x : Register) : UInt8 :=
  match c.dialect.keySelector with
  | .digit => .ofNat x.val
  | .register => s.register x

/-- Whether a skip with this condition passes over the next instruction. -/
def Condition.holds (c : Surroundings) (s : State) : Condition → Bool
  | equalsByte x b => s.register x == b
  | differsFromByte x b => s.register x != b
  | equals x y => s.register x == s.register y
  | differs x y => s.register x != s.register y
  | keyPressed x => c.keys (c.keyCode s x)
  | keyReleased x => !c.keys (c.keyCode s x)

/-- The state after a skip. -/
def State.skipWhen (s : State) (on : Bool) : State := if on then s.advance.advance else s.advance

/-! ### Arithmetic -/

/-- The value that a shift of `VX` and `VY` starts from. -/
def Dialect.shifted (d : Dialect) (vx vy : UInt8) : UInt8 :=
  match d.shiftOperand with
  | .y => vy
  | .x => vx

/-- The state after an operation on two registers, the program counter left aside. -/
def Arithmetic.apply (d : Dialect) (s : State) (x y : Register) : Arithmetic → State
  | copy => s.setRegister x (s.register y)
  | or => s.setRegister x (s.register x ||| s.register y)
  | and => s.setRegister x (s.register x &&& s.register y)
  | xor => s.setRegister x (s.register x ^^^ s.register y)
  | add =>
      (s.setFlag (256 ≤ (s.register x).toNat + (s.register y).toNat)).setRegister x
        (s.register x + s.register y)
  | subtract =>
      (s.setFlag (s.register y < s.register x)).setRegister x (s.register x - s.register y)
  | shiftRight =>
      let v := d.shifted (s.register x) (s.register y)
      (s.setFlag (v % 2 == 1)).setRegister x (v >>> 1)
  | subtractFrom =>
      (s.setRegister x (s.register y - s.register x)).setFlag (s.register x ≤ s.register y)
  | shiftLeft =>
      -- the flag is the top bit of VX even if VY is shifted
      (s.setFlag (128 ≤ s.register x)).setRegister x
        (d.shifted (s.register x) (s.register y) <<< 1)

/-! ### Sprites -/

/-- The column at which a sprite starts. -/
def State.spriteColumn (s : State) (x : Register) : Nat := (s.register x).toNat % Frame.width

/-- The row at which a sprite starts. -/
def State.spriteRow (s : State) (y : Register) : Nat := (s.register y).toNat % Frame.height

/-- The number of rows of a sprite that lie on the picture. -/
def State.spriteHeight (s : State) (y : Register) (rows : Fin 16) : Nat :=
  min rows.val (Frame.height - s.spriteRow y)

/-- The state with a sprite drawn on its picture, VF telling whether it met a lit pixel. -/
def State.drawSprite (s : State) (f : Frame) : State :=
  { s with frame := s.frame ^^^ f }.setFlag (s.frame.overlaps f)

/-- Draw the sprite at the index register; rows that would fall below the picture are not
read. -/
def State.draw (s : State) (x y : Register) (rows : Fin 16) : Attempt Unit :=
  (s.read s.index.toNat (s.spriteHeight y rows)).andThen fun bytes s =>
    .done () (s.drawSprite (Sprite.mask (s.spriteColumn x) (s.spriteRow y) bytes))

/-! ### Transfers -/

/-- The three decimal digits of a byte. -/
def decimalDigits (v : UInt8) : List UInt8 := [v / 100, v / 10 % 10, v % 10]

/-- The values of the registers up to `last`. -/
def State.firstRegisters (s : State) (last : Register) : List UInt8 :=
  s.registers.toList.take (last.val + 1)

/-- The state with the first registers set to the bytes of a list. -/
def State.setFirstRegisters (s : State) (bs : List UInt8) : State :=
  { s with registers := s.registers.mapIdx fun k v => (bs[k]?).getD v }

/-! ### Instructions -/

/-- The result of an instruction that asks for nothing and leads to the next one. -/
def Attempt.next (s : State) : Attempt Effect := .done .proceed s.advance

/-- One instruction. -/
def Instruction.execute (c : Surroundings) (r : RandomSource) (s : State) :
    Instruction → Executed
  | exit code => ⟨.done (.exit code) s, r⟩
  | clear => ⟨.done .redraw s.darken.advance, r⟩
  | ret => ⟨s.pop.andThen fun a s => .done .proceed (s.jump (Address.ofWord a)), r⟩
  | jump a => ⟨.done .proceed (s.jump a), r⟩
  | call a =>
      ⟨(s.push (s.pc + 2) c.dialect.stackLimit).andThen fun _ s => .done .proceed (s.jump a), r⟩
  | skip condition => ⟨.done .proceed (s.skipWhen (condition.holds c s)), r⟩
  | load x b => ⟨.next (s.setRegister x b), r⟩
  | addByte x b => ⟨.next (s.setRegister x (s.register x + b)), r⟩
  | arithmetic operation x y => ⟨.next (operation.apply c.dialect s x y), r⟩
  | loadIndex a => ⟨.next (s.setIndex a), r⟩
  | jumpOffset x b =>
      ⟨.done .proceed (s.jump (Address.ofWord (b.toUInt16 + (s.register x).toUInt16))), r⟩
  | random x mask => ⟨.next (s.setRegister x (r.nextByte.1 &&& mask)), r.nextByte.2⟩
  | draw x y rows => ⟨(s.draw x y rows).andThen fun _ s => .done .redraw s.advance, r⟩
  | readDelay x => ⟨.next (s.setRegister x s.delayTimer), r⟩
  | setDelay x => ⟨.next { s with delayTimer := s.register x }, r⟩
  | setSound x => ⟨.next { s with soundTimer := s.register x }, r⟩
  | addIndex x =>
      ⟨.next (s.setIndex (Address.ofWord (s.index + (s.register x).toUInt16))), r⟩
  | glyph x =>
      ⟨.next (s.setIndex (Address.ofWord (.ofNat (Glyph.address (s.register x).toNat)))), r⟩
  | decimal x =>
      ⟨(s.write s.index.toNat (decimalDigits (s.register x))).andThen fun _ s => .next s, r⟩
  | saveRegisters last =>
      ⟨(s.write s.index.toNat (s.firstRegisters last)).andThen fun _ s => .next s, r⟩
  | loadRegisters last =>
      ⟨(s.read s.index.toNat (last.val + 1)).andThen fun bs s => .next (s.setFirstRegisters bs), r⟩

/-- One word: the instruction that it is, or a fault if it is none. -/
def execute (c : Surroundings) (r : RandomSource) (s : State) (op : UInt16) : Executed :=
  match Instruction.decode? op with
  | none => ⟨⟨.error (.unrecognizedOpcode op), s⟩, r⟩
  | some i => i.execute c r s

end ChipEight
