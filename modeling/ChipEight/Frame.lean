/-!
# Frames

The picture: 32 rows of 64 pixels, each lit or dark.  A row is a word of 64 bits whose most
significant bit is the leftmost pixel, so drawing one picture onto another is exclusive or.

* `Frame`, `Frame.blank`, `Frame.pixel`, `Frame.setPixel`;
* `f ^^^ g`, `f &&& g`: pixel by pixel;
* `Frame.overlaps`: some pixel is lit in both;
* `Frame.litCount`: the number of lit pixels.
-/

namespace ChipEight

/-- The number of columns of the picture. -/
def Frame.width : Nat := 64

/-- The number of rows of the picture. -/
def Frame.height : Nat := 32

/-- A picture; the leftmost pixel of a row is its most significant bit. -/
structure Frame where
  rows : Vector (BitVec 64) Frame.height
  deriving DecidableEq

namespace Frame

/-- The picture whose row `y` is `f y`. -/
def ofRows (f : Nat → BitVec 64) : Frame := ⟨Vector.ofFn fun y => f y.val⟩

/-- The dark picture. -/
def blank : Frame := ⟨Vector.replicate Frame.height 0#64⟩

/-- Row `y`; below the picture, a dark row. -/
def row (f : Frame) (y : Nat) : BitVec 64 := (f.rows[y]?).getD 0#64

/-- Whether the pixel in column `x` of row `y` is lit; off the picture, no pixel is. -/
def pixel (f : Frame) (x y : Nat) : Bool := (f.row y).getMsbD x

/-- The pixel in column `x` of row `y`, if there is one. -/
def pixel? (f : Frame) (x y : Nat) : Option Bool :=
  if x < Frame.width ∧ y < Frame.height then some (f.pixel x y) else none

/-- A row in which only the pixel in column `x` is lit. -/
def dot (x : Nat) : BitVec 64 := BitVec.twoPow 64 (63 - x)

/-- A row with the pixel in column `x` lit or put out. -/
def setColumn (r : BitVec 64) (x : Nat) (on : Bool) : BitVec 64 :=
  if on then r ||| dot x else r &&& ~~~dot x

/-- Light or put out one pixel, if there is such a pixel. -/
def setPixel? (f : Frame) (x y : Nat) (on : Bool) : Option Frame :=
  if x < Frame.width ∧ y < Frame.height then
    some ⟨f.rows.setIfInBounds y (setColumn (f.row y) x on)⟩
  else none

instance : XorOp Frame := ⟨fun f g => ⟨Vector.zipWith (· ^^^ ·) f.rows g.rows⟩⟩

instance : AndOp Frame := ⟨fun f g => ⟨Vector.zipWith (· &&& ·) f.rows g.rows⟩⟩

/-- Whether some pixel is lit in both pictures. -/
def overlaps (f g : Frame) : Bool := f &&& g != blank

/-- The pixels row by row, from left to right. -/
def pixels (f : Frame) : List Bool :=
  (List.range Frame.height).flatMap fun y => (List.range Frame.width).map fun x => f.pixel x y

/-- The number of lit pixels. -/
def litCount (f : Frame) : Nat := f.pixels.countP id

/-! ### Pixels of each operation -/

@[simp] theorem row_ofRows (g : Nat → BitVec 64) (y : Nat) :
    (ofRows g).row y = if y < Frame.height then g y else 0#64 := by
  by_cases h : y < Frame.height <;> simp [row, ofRows, h]

@[simp] theorem row_blank (y : Nat) : blank.row y = 0#64 := by
  simp only [row, blank, Vector.getElem?_replicate]
  split <;> rfl

@[simp] theorem pixel_blank (x y : Nat) : blank.pixel x y = false := by
  simp [pixel]

theorem row_of_le (f : Frame) {y : Nat} (h : Frame.height ≤ y) : f.row y = 0#64 := by
  simp [row, Vector.getElem?_eq_none h]

theorem pixel_of_width_le (f : Frame) {x : Nat} (y : Nat) (h : Frame.width ≤ x) :
    f.pixel x y = false := BitVec.getMsbD_of_ge _ _ h

theorem pixel_of_height_le (f : Frame) (x : Nat) {y : Nat} (h : Frame.height ≤ y) :
    f.pixel x y = false := by
  simp [pixel, row_of_le f h]

/-- A lit pixel is on the picture. -/
theorem lt_of_pixel {f : Frame} {x y : Nat} (h : f.pixel x y = true) :
    x < Frame.width ∧ y < Frame.height := by
  refine ⟨Nat.lt_of_not_le fun hx => ?_, Nat.lt_of_not_le fun hy => ?_⟩
  · rw [pixel_of_width_le f y hx] at h
    cases h
  · rw [pixel_of_height_le f x hy] at h
    cases h

/-- Two pictures with the same rows are the same. -/
theorem ext_row {f g : Frame} (h : ∀ y < Frame.height, f.row y = g.row y) : f = g := by
  obtain ⟨v⟩ := f
  obtain ⟨w⟩ := g
  congr 1
  apply Vector.ext
  intro y hy
  simpa [row, hy] using h y hy

/-- Two pictures with the same pixels are the same. -/
@[ext] theorem ext {f g : Frame}
    (h : ∀ x < Frame.width, ∀ y < Frame.height, f.pixel x y = g.pixel x y) : f = g :=
  ext_row fun y hy => BitVec.eq_of_getMsbD_eq fun x hx => h x hx y hy

@[simp] theorem row_xor (f g : Frame) (y : Nat) : (f ^^^ g).row y = f.row y ^^^ g.row y := by
  by_cases h : y < Frame.height
  · show ((Vector.zipWith (· ^^^ ·) f.rows g.rows)[y]?).getD 0#64 = _
    simp [row, h]
  · simp [row_of_le _ (Nat.le_of_not_lt h)]

@[simp] theorem row_and (f g : Frame) (y : Nat) : (f &&& g).row y = f.row y &&& g.row y := by
  by_cases h : y < Frame.height
  · show ((Vector.zipWith (· &&& ·) f.rows g.rows)[y]?).getD 0#64 = _
    simp [row, h]
  · simp [row_of_le _ (Nat.le_of_not_lt h)]

@[simp] theorem pixel_xor (f g : Frame) (x y : Nat) :
    (f ^^^ g).pixel x y = (f.pixel x y ^^ g.pixel x y) := by
  simp [pixel]

@[simp] theorem pixel_and (f g : Frame) (x y : Nat) :
    (f &&& g).pixel x y = (f.pixel x y && g.pixel x y) := by
  simp [pixel]

theorem overlaps_iff (f g : Frame) :
    f.overlaps g = true ↔ ∃ x y, f.pixel x y = true ∧ g.pixel x y = true := by
  constructor
  · intro h
    refine Classical.byContradiction fun hn => ?_
    have hb : f &&& g = blank := by
      ext x hx y hy
      cases hf : f.pixel x y <;> cases hg : g.pixel x y <;> simp [hf, hg]
      exact hn ⟨x, y, hf, hg⟩
    simp [overlaps, hb] at h
  · rintro ⟨x, y, hf, hg⟩
    simp only [overlaps, bne_iff_ne, ne_eq]
    intro hb
    have := congrArg (fun k : Frame => k.pixel x y) hb
    simp [hf, hg] at this

end Frame

end ChipEight
