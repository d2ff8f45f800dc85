/-!
# Glyphs

The sixteen hexadecimal digits as sprites of five rows, kept at the bottom of memory.

* `Glyph.height`, `Glyph.sheet`;
* `Glyph.address d`: where the glyph of digit `d` starts.
-/

namespace ChipEight.Glyph

/-- The number of rows, hence of bytes, of a glyph. -/
def height : Nat := 5

/-- The rows of the sixteen glyphs in order; only the left half of a row is used. -/
def sheet : List UInt8 :=
  [0xF0, 0x90, 0x90, 0x90, 0xF0, -- 0
   0x20, 0x60, 0x20, 0x20, 0x70, -- 1
   0xF0, 0x10, 0xF0, 0x80, 0xF0, -- 2
   0xF0, 0x10, 0xF0, 0x10, 0xF0, -- 3
   0x90, 0x90, 0xF0, 0x10, 0x10, -- 4
   0xF0, 0x80, 0xF0, 0x10, 0xF0, -- 5
   0xF0, 0x80, 0xF0, 0x90, 0xF0, -- 6
   0xF0, 0x10, 0x20, 0x40, 0x40, -- 7
   0xF0, 0x90, 0xF0, 0x90, 0xF0, -- 8
   0xF0, 0x90, 0xF0, 0x10, 0xF0, -- 9
   0xF0, 0x90, 0xF0, 0x90, 0x90, -- A
   0xE0, 0x90, 0xE0, 0x90, 0xE0, -- B
   0xF0, 0x80, 0x80, 0x80, 0xF0, -- C
   0xE0, 0x90, 0x90, 0x90, 0xE0, -- D
   0xF0, 0x80, 0xF0, 0x80, 0xF0, -- E
   0xF0, 0x80, 0xF0, 0x80, 0x80] -- F

/-- The address of the first row of the glyph of `d`; the sheet starts at address zero. -/
def address (d : Nat) : Nat := height * d

@[simp] theorem length_sheet : sheet.length = 16 * height := rfl

end ChipEight.Glyph
