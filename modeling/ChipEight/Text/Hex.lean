/-!
# Hexadecimal text

Diagnostics write addresses and opcodes as upper-case hexadecimal numerals of a least width.

* `hex width n`: the digits of `n`, with zeros in front up to `width` of them;
* `address n`: the form `0x0200` used in messages.
-/

namespace ChipEight.Text

/-- The upper-case hexadecimal digits of `n`, filled with zeros on the left to at least `width`. -/
def hex (width n : Nat) : String :=
  String.ofList (((Nat.toDigits 16 n).map Char.toUpper).leftpad width '0')

/-- A number as messages show it: `0x` and at least four digits. -/
def address (n : Nat) : String := "0x" ++ hex 4 n

end ChipEight.Text
