import ChipEight.Execute

/-!
# Checked execution

Fetching and executing once more, with nothing taken for granted.  Registers are named by numbers,
the digits of a word come from masks and shifts, sprites are drawn bit by bit, bytes are copied by
slices between arrays, and each index, slice, copy, difference, shift and sum of words is checked
before it is used.  `none` stands for a check that failed; a fault is no such failure.

* `Checked.sub?`, `Checked.add?`, `Checked.mul?`, `Checked.shiftRight?`, `Checked.shiftLeft?`:
  numbers and words;
* `Checked.slice?`, `Checked.copyInto?`: parts of arrays;
* `State.checkedRead?`, `State.checkedWrite?`, `State.checkedFetch?`: memory;
* `Checked.drawBit?`, `Checked.drawRow?`, `Checked.drawRows?`: the loops that draw a sprite;
* `Instruction.checked?`, `checkedExecute?`: one instruction, one word.
-/

namespace ChipEight

namespace Checked

/-! ### Numbers and words -/

/-- The difference of two numbers, unless it is below zero. -/
def sub? (a b : Nat) : Option Nat := if b ≤ a then some (a - b) else none

/-- The sum of two words, unless it needs more than sixteen bits. -/
def add? (a b : UInt16) : Option UInt16 :=
  if a.toNat + b.toNat < 65536 then some (a + b) else none

/-- The product of two words, unless it needs more than sixteen bits. -/
def mul? (a b : UInt16) : Option UInt16 :=
  if a.toNat * b.toNat < 65536 then some (a * b) else none

/-- A byte shifted to the right by fewer than eight places. -/
def shiftRight? (b : UInt8) (k : Nat) : Option UInt8 :=
  if k < 8 then some (b >>> .ofNat k) else none

/-- A byte shifted to the left by fewer than eight places. -/
def shiftLeft? (b : UInt8) (k : Nat) : Option UInt8 :=
  if k < 8 then some (b <<< .ofNat k) else none

/-! ### Parts of arrays -/

variable {α : Type} {size : Nat}

/-- The part of an array from place `i` up to place `j`, if these lie in it and in this order. -/
def slice? (xs : Vector α size) (i j : Nat) : Option (List α) :=
  if i ≤ j ∧ j ≤ size then some ((xs.toList.drop i).take (j - i)) else none

/-- An array with the part from place `i` up to place `j` replaced, if there is such a part and it
has as many elements as what replaces it. -/
def copyInto? (xs : Vector α size) (i j : Nat) (ys : List α) : Option (Vector α size) :=
  if i ≤ j ∧ j ≤ size ∧ ys.length = j - i then
    some (xs.mapIdx fun k v => if i ≤ k then (ys[k - i]?).getD v else v)
  else none

/-! ### Sprites, bit by bit -/

/-- One bit of a row of a sprite: if it is set, the pixel in column `x` of row `y` is inverted, and
it is kept in mind whether any such pixel was lit. -/
def drawBit? (b : UInt8) (x y : Nat) (drawn : Frame × Bool) (bit : Nat) :
    Option (Frame × Bool) := do
  let mask ← shiftRight? 0x80 bit
  if b &&& mask = 0 then
    return drawn
  let lit ← drawn.1.pixel? (x + bit) y
  let frame ← drawn.1.setPixel? (x + bit) y (!lit)
  return (frame, drawn.2 || lit)

/-- A row of a sprite, the leftmost bit first. -/
def drawRow? (b : UInt8) (x y columns : Nat) (drawn : Frame × Bool) : Option (Frame × Bool) :=
  (List.range columns).foldlM (drawBit? b x y) drawn

/-- The rows of a sprite, the first at row `y`. -/
def drawRows? (x y columns : Nat) : List UInt8 → Frame × Bool → Option (Frame × Bool)
  | [], drawn => some drawn
  | b :: bs, drawn => do
      let drawn ← drawRow? b x y columns drawn
      drawRows? x (y + 1) columns bs drawn

end Checked

/-! ### Memory -/

/-- The end of the window of `n` bytes from `a` on, if it lies inside the memory; a sum of words of
64 bits that is smaller than `a` has lost a carry. -/
def Memory.endWord? (a n : UInt64) : Option UInt64 :=
  if a + n < a then none else if a + n ≤ .ofNat Memory.size then some (a + n) else none

namespace State

open Checked

/-- The bytes of a window of memory, taken as a slice. -/
def checkedRead? (s : State) (a n : UInt64) : Option (Except Fault (List UInt8)) :=
  match Memory.endWord? a n with
  | none => some (.error (Memory.outside a.toNat))
  | some stop => (slice? s.memory.bytes a.toNat stop.toNat).map .ok

/-- Put bytes into memory by copying them into a slice. -/
def checkedWrite? (s : State) (a : UInt64) (bs : List UInt8) : Option (Attempt Unit) :=
  match Memory.endWord? a (.ofNat bs.length) with
  | none => some ⟨.error (Memory.outside a.toNat), s⟩
  | some stop =>
      (copyInto? s.memory.bytes a.toNat stop.toNat bs).map fun bytes =>
        .done () { s with memory := ⟨bytes⟩ }

/-- The word at the program counter. -/
def checkedFetch? (s : State) : Option (Except Fault UInt16) := do
  match ← s.checkedRead? s.pc.toUInt64 2 with
  | .error e => return .error e
  | .ok bs =>
      let high ← bs[0]?
      let low ← bs[1]?
      return .ok (high.toUInt16 <<< 8 ||| low.toUInt16)

/-- Draw the sprite at the index register. -/
def checkedDraw? (s : State) (x y rows : Nat) : Option (Attempt Unit) := do
  let vx ← s.register? x
  let vy ← s.register? y
  let column := vx.toNat % Frame.width
  let row := vy.toNat % Frame.height
  let below ← sub? Frame.height row
  let beyond ← sub? Frame.width column
  let height := min (min rows Sprite.maxHeight) below
  -- the part of the buffer is taken before memory is read
  guard (height ≤ Sprite.maxHeight)
  match ← s.checkedRead? s.index.toUInt64 (.ofNat height) with
  | .error e => return ⟨.error e, s⟩
  | .ok bs =>
      let buffer ← copyInto? (Vector.replicate Sprite.maxHeight 0) 0 height bs
      let sprite ← slice? buffer 0 height
      let (frame, met) ← drawRows? column row (min 8 beyond) sprite (s.frame, false)
      let t ← { s with frame := frame }.setRegister? 15 (flagValue met)
      return .done () t

end State

/-! ### Instructions -/

section

open Checked

/-- The code of the key that a key instruction asks for. -/
def Surroundings.checkedKeyCode? (c : Surroundings) (s : State) (x : Nat) : Option UInt8 :=
  match c.dialect.keySelector with
  | .digit => some (.ofNat x)
  | .register => s.register? x

/-- Whether a skip passes over the next instruction. -/
def Condition.checked? (c : Surroundings) (s : State) (x y : Nat) : Condition → Option Bool
  | equalsByte _ b => do return (← s.register? x) == b
  | differsFromByte _ b => do return (← s.register? x) != b
  | equals _ _ => do return (← s.register? x) == (← s.register? y)
  | differs _ _ => do return (← s.register? x) != (← s.register? y)
  | keyPressed _ => do return c.keys (← c.checkedKeyCode? s x)
  | keyReleased _ => do return !c.keys (← c.checkedKeyCode? s x)

/-- An operation on two registers; the flag is register 15. -/
def Arithmetic.checked? (d : Dialect) (s : State) (x y : Nat) (o : Arithmetic) : Option State := do
  let vx ← s.register? x
  let vy ← s.register? y
  match o with
  | copy => s.setRegister? x vy
  | or => s.setRegister? x (vx ||| vy)
  | and => s.setRegister? x (vx &&& vy)
  | xor => s.setRegister? x (vx ^^^ vy)
  | add =>
      let t ← s.setRegister? 15 (State.flagValue (256 ≤ vx.toNat + vy.toNat))
      t.setRegister? x (vx + vy)
  | subtract =>
      let t ← s.setRegister? 15 (State.flagValue (vy < vx))
      t.setRegister? x (vx - vy)
  | shiftRight =>
      let v ← shiftRight? (d.shifted vx vy) 1
      let t ← s.setRegister? 15 (State.flagValue (d.shifted vx vy % 2 == 1))
      t.setRegister? x v
  | subtractFrom =>
      let t ← s.setRegister? x (vy - vx)
      t.setRegister? 15 (State.flagValue (vx ≤ vy))
  | shiftLeft =>
      let top ← shiftRight? vx 7
      let v ← shiftLeft? (d.shifted vx vy) 1
      let t ← s.setRegister? 15 (State.flagValue (top == 1))
      t.setRegister? x v

/-- One instruction, the registers of which are named by the numbers `x` and `y`. -/
def Instruction.checked? (c : Surroundings) (r : RandomSource) (s : State) (x y : Nat)
    (i : Instruction) : Option Executed :=
  match i with
  | exit _ | clear | ret | jump _ | call _ | loadIndex _ => some (i.execute c r s)
  | skip condition => do
      let on ← condition.checked? c s x y
      return ⟨.done .proceed (s.skipWhen on), r⟩
  | load _ b => do
      let t ← s.setRegister? x b
      return ⟨.next t, r⟩
  | addByte _ b => do
      let v ← s.register? x
      let t ← s.setRegister? x (v + b)
      return ⟨.next t, r⟩
  | arithmetic o _ _ => do
      let t ← o.checked? c.dialect s x y
      return ⟨.next t, r⟩
  | jumpOffset _ b => do
      let v ← s.register? x
      let w ← add? b.toUInt16 v.toUInt16
      return ⟨.done .proceed (s.jump (Address.ofWord w)), r⟩
  | random _ mask => do
      let t ← s.setRegister? x (r.nextByte.1 &&& mask)
      return ⟨.next t, r.nextByte.2⟩
  | draw _ _ rows => do
      let t ← s.checkedDraw? x y rows.val
      return ⟨t.andThen fun _ s => .done .redraw s.advance, r⟩
  | readDelay _ => do
      let t ← s.setRegister? x s.delayTimer
      return ⟨.next t, r⟩
  | setDelay _ => do
      let v ← s.register? x
      return ⟨.next { s with delayTimer := v }, r⟩
  | setSound _ => do
      let v ← s.register? x
      return ⟨.next { s with soundTimer := v }, r⟩
  | addIndex _ => do
      let v ← s.register? x
      let w ← add? s.index v.toUInt16
      return ⟨.next (s.setIndex (Address.ofWord w)), r⟩
  | glyph _ => do
      let v ← s.register? x
      let w ← mul? v.toUInt16 (.ofNat Glyph.height)
      return ⟨.next (s.setIndex (Address.ofWord w)), r⟩
  | decimal _ => do
      let v ← s.register? x
      let t ← s.checkedWrite? s.index.toUInt64 (decimalDigits v)
      return ⟨t.andThen fun _ s => .next s, r⟩
  | saveRegisters _ => do
      let bs ← slice? s.registers 0 (x + 1)
      let t ← s.checkedWrite? s.index.toUInt64 bs
      return ⟨t.andThen fun _ s => .next s, r⟩
  | loadRegisters _ => do
      guard (x + 1 ≤ registerCount)
      match ← s.checkedRead? s.index.toUInt64 (.ofNat (x + 1)) with
      | .error e => return ⟨⟨.error e, s⟩, r⟩
      | .ok bs =>
          let buffer ← copyInto? (Vector.replicate registerCount 0) 0 (x + 1) bs
          let loaded ← slice? buffer 0 (x + 1)
          let vs ← copyInto? s.registers 0 (x + 1) loaded
          return ⟨.next { s with registers := vs }, r⟩

/-- One word; the numbers of its registers are its second and third digit. -/
def checkedExecute? (c : Surroundings) (r : RandomSource) (s : State) (op : UInt16) :
    Option Executed :=
  match Instruction.decode? op with
  | none => some ⟨⟨.error (.unrecognizedOpcode op), s⟩, r⟩
  | some i => i.checked? c r s ((op &&& 0x0F00) >>> 8).toNat ((op &&& 0x00F0) >>> 4).toNat

end

end ChipEight
