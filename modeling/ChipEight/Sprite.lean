import ChipEight.Frame

/-!
# Sprites

A sprite is a list of bytes, one for each row of eight pixels, most significant bit leftmost.
Placed on the picture with its upper left corner at `(x, y)` it is cut off at the right and
bottom edges; nothing reappears at the opposite edge.

* `Sprite.line b x`: one row of a sprite, placed at column `x`;
* `Sprite.mask x y bytes`: the whole sprite as a picture of its own;
* `pixel_mask`: which pixels it has.
-/

namespace ChipEight.Sprite

/-- The greatest number of rows that an instruction can name, and one more. -/
def maxHeight : Nat := 16

/-- Eight pixels at the left edge of a row. -/
def leftmost (b : UInt8) : BitVec 64 := b.toBitVec ++ 0#56

/-- Eight pixels placed at column `x` of a row; those beyond the right edge are cut off. -/
def line (b : UInt8) (x : Nat) : BitVec 64 := leftmost b >>> x

/-- The sprite placed at `(x, y)`, as a picture; rows beyond the bottom edge are cut off. -/
def mask (x y : Nat) (bytes : List UInt8) : Frame :=
  Frame.ofRows fun k =>
    if y ≤ k then (bytes[k - y]?).elim 0#64 (line · x) else 0#64

theorem getMsbD_leftmost (b : UInt8) (k : Nat) : (leftmost b).getMsbD k = b.toBitVec.getMsbD k := by
  show (b.toBitVec ++ 0#56 : BitVec (8 + 56)).getMsbD k = _
  rw [BitVec.getMsbD_append]
  by_cases h : 8 ≤ k
  · simp [h]
  · simp [h]

theorem getMsbD_line (b : UInt8) (x c : Nat) :
    (line b x).getMsbD c =
      (decide (x ≤ c ∧ c < Frame.width) && b.toBitVec.getMsbD (c - x)) := by
  by_cases hx : x ≤ c
  · by_cases hc : c < 64
    · simp [line, Frame.width, BitVec.getMsbD_ushiftRight, getMsbD_leftmost, hx, hc,
        show ¬ c < x by omega]
    · simp [line, Frame.width, BitVec.getMsbD_ushiftRight, hc]
  · simp [line, BitVec.getMsbD_ushiftRight, hx, show c < x by omega]

/-- A pixel of a placed sprite is lit where the bit of the byte of that row is set. -/
theorem pixel_mask (x y : Nat) (bytes : List UInt8) (c r : Nat) :
    (mask x y bytes).pixel c r =
      (decide (x ≤ c ∧ c < Frame.width ∧ y ≤ r ∧ r < Frame.height) &&
        ((bytes[r - y]?).getD 0).toBitVec.getMsbD (c - x)) := by
  by_cases hr : r < Frame.height
  · by_cases hy : y ≤ r
    · cases hb : bytes[r - y]? with
      | none => simp [Frame.pixel, mask, hr, hy, hb]
      | some b => simp [Frame.pixel, mask, hr, hy, hb, getMsbD_line]
    · simp [Frame.pixel, mask, hr, hy]
  · simp [Frame.pixel, mask, hr]

end ChipEight.Sprite
