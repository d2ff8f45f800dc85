/-!
# Keyboard layout

The sixteen keys lie on the left four columns of a keyboard:

    1 2 3 4        1 2 3 C
    Q W E R        4 5 6 D
    A S D F        7 8 9 E
    Z X C V        A 0 B F

* `Keymap.layout`: the character of each key, in the order of the codes;
* `Keymap.code?`: the code of a character.
-/

namespace ChipEight.Keymap

/-- The character of each key, the key with code zero first. -/
def layout : List Char :=
  ['X', '1', '2', '3', 'Q', 'W', 'E', 'A', 'S', 'D', 'Z', 'C', '4', 'R', 'F', 'V']

/-- The code of the key at a character; the case of ASCII letters does not matter. -/
def code? (c : Char) : Option UInt8 := (layout.idxOf? c.toUpper).map UInt8.ofNat

end ChipEight.Keymap
