import ChipEight.Keypad
import ChipEight.Terminal.Writer

/-!
# The console

The host of the command line: the keys held down, the two output streams, and the bell, which
rings whenever a tone begins.

* `Console`, `Console.display`, `Console.bell`;
* `Bell.rings`: when the bell rings.
-/

namespace ChipEight

/-- Whether the bell rings when the buzzer is told `now`, having been told `before`. -/
def Bell.rings (before now : Bool) : Bool := now && !before

/-- The character that rings the bell. -/
def Bell.character : Char := '\x07'

/-- The host of the command line. -/
structure Console where
  keypad : Keypad := Keypad.released
  stdout : Writer := {}
  stderr : String := ""
  /-- What the buzzer was told last. -/
  sounding : Bool := false

namespace Console

/-- The display that writes to standard output. -/
def display : Display Console := Display.toWriter stdout fun w c => { c with stdout := w }

/-- The buzzer that rings the bell on standard error, and reports it. -/
def bell : Buzzer Console := fun on c =>
  { host :=
      { c with
        stderr := if Bell.rings c.sounding on then c.stderr.push Bell.character else c.stderr
        sounding := on }
    log := if Bell.rings c.sounding on then [.toneOn] else [] }

/-- Whether a key is held down. -/
def keys (c : Console) : UInt8 → Bool := c.keypad.isPressed

/-- The console once readers have taken what was written. -/
def drained (c : Console) : Console := { c with stdout := c.stdout.drained, stderr := "" }

end Console

end ChipEight
