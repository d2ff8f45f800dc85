import ChipEight.Frame

/-!
# Pictures as text

A picture is written as 32 lines of 64 characters: a block for a lit pixel, a space for a dark
one, and a newline after each line.

* `Frame.symbol`, `Frame.line`, `Frame.text`.
-/

namespace ChipEight.Frame

/-- The character of a pixel. -/
def symbol (on : Bool) : Char := if on then '█' else ' '

/-- The characters of a row, without the newline. -/
def line (f : Frame) (y : Nat) : List Char :=
  (List.range Frame.width).map fun x => symbol (f.pixel x y)

/-- The characters of a picture. -/
def characters (f : Frame) : List Char :=
  (List.range Frame.height).flatMap fun y => f.line y ++ ['\n']

/-- A picture as text. -/
def text (f : Frame) : String := String.ofList f.characters

@[simp] theorem length_line (f : Frame) (y : Nat) : (f.line y).length = Frame.width := by
  simp [line]

end ChipEight.Frame
