import ChipEight.Frame
import ChipEight.Glyph
import ChipEight.Memory

/-!
# Machine states

All that a program can change: sixteen registers, the index register, the program counter, two
timers, the pending return addresses, the memory and the picture.

* `Address`, `Register`, `State`, `State.initial`, `State.reset`;
* `Attempt`: what an operation that may be refused returns, and the state it leaves;
* `State.fetch`: the word at the program counter;
* `State.advance`, `State.jump`, `State.push`, `State.pop`: the flow of control;
* `State.countDown`: one step of the timers;
* `State.read`, `State.write`: access to memory;
* `State.loadProgram`: a program put into memory.

An address has twelve bits, so whatever is put into the index register and every jump target lie
inside the memory.  The registers themselves are words of sixteen bits: the program counter wraps
around, for the step past the last instruction leads out of memory, where fetching fails.
-/

namespace ChipEight

/-- An address inside the memory. -/
abbrev Address := BitVec 12

/-- The low twelve bits of a word, as an address. -/
def Address.ofWord (w : UInt16) : Address := w.toBitVec.setWidth 12

/-- An address as a word. -/
def Address.toWord (a : Address) : UInt16 := ⟨a.setWidth 16⟩

/-- The number of registers. -/
abbrev registerCount : Nat := 16

/-- The number of a register. -/
abbrev Register := Fin registerCount

/-- The register VF, which receives carries, borrows and collisions. -/
def flagRegister : Register := ⟨15, Nat.lt_succ_self 15⟩

/-- The address at which programs are loaded and started. -/
def Program.start : Nat := 0x200

/-- The size of the largest program. -/
def Program.maxSize : Nat := Memory.size - Program.start

/-- The number of bytes of an instruction. -/
def opcodeSize : Nat := 2

/-- The state of the machine, the host and the random source left aside. -/
structure State where
  registers : Vector UInt8 registerCount
  index : UInt16
  pc : UInt16
  delayTimer : UInt8
  soundTimer : UInt8
  /-- The pending return addresses, the latest first. -/
  stack : List UInt16
  memory : Memory
  frame : Frame
  deriving DecidableEq

/-! ### Attempts -/

/-- What an operation that may be refused returned, and the state that it left.  A refused
operation leaves a state too; that it is the state from before is a matter of the operation. -/
structure Attempt (α : Type) where
  value : Except Fault α
  state : State

namespace Attempt

variable {α β : Type}

/-- An operation that was not refused. -/
def done (a : α) (s : State) : Attempt α := ⟨.ok a, s⟩

/-- Go on from where an operation left off, unless it was refused. -/
def andThen (t : Attempt α) (f : α → State → Attempt β) : Attempt β :=
  match t with
  | ⟨.error e, s⟩ => ⟨.error e, s⟩
  | ⟨.ok a, s⟩ => f a s

end Attempt

namespace State

/-- The state at power on: all is zero but the glyphs at the bottom of memory. -/
def initial : State where
  registers := Vector.replicate registerCount 0
  index := 0
  pc := .ofNat Program.start
  delayTimer := 0
  soundTimer := 0
  stack := []
  memory := Memory.zero.store 0 Glyph.sheet
  frame := Frame.blank

/-- The state with everything as it is at power on. -/
def reset (s : State) : State :=
  { s with
    registers := Vector.replicate registerCount 0
    index := 0
    pc := .ofNat Program.start
    delayTimer := 0
    soundTimer := 0
    stack := []
    memory := Memory.zero.store 0 Glyph.sheet
    frame := Frame.blank }

/-- A reset leaves nothing of the state before it. -/
theorem reset_eq (s : State) : s.reset = initial := rfl

/-! ### Registers -/

/-- The value of a register. -/
def register (s : State) (x : Register) : UInt8 := s.registers[x]

/-- The state with another value in a register. -/
def setRegister (s : State) (x : Register) (v : UInt8) : State :=
  { s with registers := s.registers.set x v }

/-- The register with number `x`, if there is one. -/
def register? (s : State) (x : Nat) : Option UInt8 := s.registers[x]?

/-- The state with another value in the register with number `x`, if there is one. -/
def setRegister? (s : State) (x : Nat) (v : UInt8) : Option State :=
  if h : x < registerCount then some (s.setRegister ⟨x, h⟩ v) else none

/-- One for `true`, zero for `false`: the value of a flag. -/
def flagValue (on : Bool) : UInt8 := if on then 1 else 0

/-- The state with VF raised or lowered. -/
def setFlag (s : State) (on : Bool) : State := s.setRegister flagRegister (flagValue on)

/-- The state with another address in the index register. -/
def setIndex (s : State) (a : Address) : State := { s with index := a.toWord }

/-! ### Flow of control -/

/-- The word at the program counter, its high byte first. -/
def fetch (s : State) : Except Fault UInt16 :=
  match s.memory.read s.pc.toNat opcodeSize with
  | .error e => .error e
  | .ok _ =>
      .ok ((s.memory.byte s.pc.toNat).toUInt16 <<< 8 ||| (s.memory.byte (s.pc.toNat + 1)).toUInt16)

/-- The state at the next instruction. -/
def advance (s : State) : State := { s with pc := s.pc + 2 }

/-- The state at another instruction. -/
def jump (s : State) (a : Address) : State := { s with pc := a.toWord }

/-- One more return address, unless `limit` of them are pending already. -/
def push (s : State) (a : UInt16) (limit : Option Nat) : Attempt Unit :=
  match limit with
  | none => .done () { s with stack := a :: s.stack }
  | some l =>
      if s.stack.length < l then .done () { s with stack := a :: s.stack }
      else ⟨.error (.stackOverflow l), s⟩

/-- Take the latest return address. -/
def pop (s : State) : Attempt UInt16 :=
  match s.stack with
  | [] => ⟨.error .stackUnderflow, s⟩
  | a :: rest => .done a { s with stack := rest }

/-! ### Timers, memory and picture -/

/-- A timer one tick later; it stops at zero. -/
def countDownTimer (t : UInt8) : UInt8 := if t = 0 then 0 else t - 1

/-- The state with both timers one tick later. -/
def countDown (s : State) : State :=
  { s with delayTimer := countDownTimer s.delayTimer, soundTimer := countDownTimer s.soundTimer }

/-- The bytes of a window of memory. -/
def read (s : State) (a n : Nat) : Attempt (List UInt8) := ⟨s.memory.read a n, s⟩

/-- Put bytes into memory. -/
def write (s : State) (a : Nat) (bs : List UInt8) : Attempt Unit :=
  match s.memory.write a bs with
  | .error e => ⟨.error e, s⟩
  | .ok m => .done () { s with memory := m }

/-- Put a program into memory; nothing else is touched. -/
def loadProgram (s : State) (rom : List UInt8) : Attempt Unit := s.write Program.start rom

/-- The state with a dark picture. -/
def darken (s : State) : State := { s with frame := Frame.blank }

/-- The state with one pixel lit or put out, if there is such a pixel. -/
def setPixel? (s : State) (x y : Nat) (on : Bool) : Option State :=
  (s.frame.setPixel? x y on).map fun f => { s with frame := f }

/-! ### Registers of each operation -/

@[simp] theorem register_setRegister_self (s : State) (x : Register) (v : UInt8) :
    (s.setRegister x v).register x = v := by
  simp [register, setRegister]

theorem register_setRegister_of_ne (s : State) {x y : Register} (v : UInt8) (h : x ≠ y) :
    (s.setRegister x v).register y = s.register y := by
  have h' : x.val ≠ y.val := fun e => h (Fin.ext e)
  simp [register, setRegister, h']

theorem register?_eq_some (s : State) (x : Register) : s.register? x = some (s.register x) :=
  Vector.getElem?_eq_getElem x.isLt

theorem setRegister?_eq_some (s : State) (x : Register) (v : UInt8) :
    s.setRegister? x v = some (s.setRegister x v) := dif_pos x.isLt

@[simp] theorem toNat_countDownTimer (t : UInt8) : (countDownTimer t).toNat = t.toNat - 1 := by
  unfold countDownTimer
  by_cases h : t = 0
  · simp [h]
  · have h1 : t.toNat ≠ 0 := fun e => h (UInt8.toNat_inj.1 e)
    have h2 : (1 : UInt8) ≤ t :=
      UInt8.le_iff_toNat_le.2 (by simpa using Nat.one_le_iff_ne_zero.2 h1)
    simp [h, UInt8.toNat_sub_of_le _ _ h2]

theorem exists_fetch_eq_ok_iff (s : State) :
    (∃ w, s.fetch = .ok w) ↔ s.pc.toNat + opcodeSize ≤ Memory.size := by
  unfold fetch Memory.read
  by_cases h : s.pc.toNat + opcodeSize ≤ Memory.size <;> simp [h]

end State

end ChipEight
