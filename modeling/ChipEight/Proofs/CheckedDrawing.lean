import ChipEight.Proofs.CheckedAccess
import Mathlib.Data.Nat.Bitwise
import Mathlib.Tactic.IntervalCases

/-!
# Checks on drawing

The loops that draw a sprite bit by bit stay inside the sprite and inside the picture, and together
they do what one exclusive or with the picture of the sprite does.

* `Checked.Inverts`: what drawing some pixels makes of a picture;
* `Checked.exists_drawBit?`, `Checked.exists_drawRow?`, `Checked.exists_drawRows?`: the loops, from
  the inside out;
* `State.checkedDraw?_eq`: a checked drawing is a drawing.
-/

namespace ChipEight

namespace Frame

/-- A dot is lit in its own column only. -/
theorem getMsbD_dot {x c : ℕ} (hx : x < 64) : (dot x).getMsbD c = decide (c = x) := by
  rw [dot, BitVec.getMsbD_twoPow, decide_eq_true (by omega), Bool.true_and]
  exact decide_eq_decide.2 (by omega)

theorem getMsbD_setColumn {r : BitVec 64} {x c : ℕ} (on : Bool) (hx : x < 64) (hc : c < 64) :
    (setColumn r x on).getMsbD c = if c = x then on else r.getMsbD c := by
  cases on with
  | true =>
    show (r ||| dot x).getMsbD c = _
    rw [BitVec.getMsbD_or, getMsbD_dot hx]
    split <;> simp [*]
  | false =>
    show (r &&& ~~~dot x).getMsbD c = _
    rw [BitVec.getMsbD_and, BitVec.getMsbD_not, getMsbD_dot hx]
    split <;> simp [*]

/-- Setting a pixel of the picture sets this pixel and no other. -/
theorem exists_setPixel? (f : Frame) {x y : ℕ} (on : Bool) (hx : x < 64) (hy : y < 32) :
    ∃ g, f.setPixel? x y on = some g ∧
      ∀ c < 64, ∀ r < 32, g.pixel c r = if c = x ∧ r = y then on else f.pixel c r := by
  refine ⟨_, if_pos ⟨hx, hy⟩, fun c hc r hr => ?_⟩
  have hrow : (Frame.mk (f.rows.setIfInBounds y (setColumn (f.row y) x on))).row r =
      if r = y then setColumn (f.row y) x on else f.row r := by
    have hr' : r < Frame.height := hr
    unfold row
    rw [Vector.getElem?_setIfInBounds]
    by_cases h : y = r
    · subst h
      simp [hr']
    · simp [h, Ne.symm h]
  unfold pixel
  rw [hrow]
  by_cases h : r = y
  · subst h
    rw [if_pos rfl, getMsbD_setColumn on hx hc]
    simp only [and_true]
  · rw [if_neg h, if_neg fun hcr => h hcr.2]

end Frame

namespace Checked

variable {p q : ℕ → ℕ → Bool} {d d' d'' : Frame × Bool} {b : UInt8} {x y k : ℕ}

/-! ### What drawing makes of a picture -/

/-- From `before` to `after` the pixels at which `p` holds are inverted, and the second component is
raised if one of them was lit. -/
def Inverts (p : ℕ → ℕ → Bool) (before after : Frame × Bool) : Prop :=
  (∀ c < 64, ∀ r < 32, after.1.pixel c r = (before.1.pixel c r ^^ p c r)) ∧
    (after.2 = true ↔
      before.2 = true ∨ ∃ c < 64, ∃ r < 32, p c r = true ∧ before.1.pixel c r = true)

theorem Inverts.refl (h : ∀ c < 64, ∀ r < 32, p c r = false) (d : Frame × Bool) :
    Inverts p d d := by
  refine ⟨fun c hc r hr => by rw [h c hc r hr, Bool.xor_false], ?_⟩
  constructor
  · exact .inl
  · rintro (hd | ⟨c, hc, r, hr, hp, -⟩)
    · exact hd
    · rw [h c hc r hr] at hp
      cases hp

theorem Inverts.congr (h : Inverts p d d') (hpq : ∀ c < 64, ∀ r < 32, p c r = q c r) :
    Inverts q d d' := by
  obtain ⟨hpixel, hflag⟩ := h
  refine ⟨fun c hc r hr => by rw [hpixel c hc r hr, hpq c hc r hr], hflag.trans (or_congr_right ?_)⟩
  constructor
  · rintro ⟨c, hc, r, hr, hp, hlit⟩
    exact ⟨c, hc, r, hr, hpq c hc r hr ▸ hp, hlit⟩
  · rintro ⟨c, hc, r, hr, hq, hlit⟩
    exact ⟨c, hc, r, hr, (hpq c hc r hr).symm ▸ hq, hlit⟩

/-- One drawing after another that has no pixel in common with it: the second finds its pixels as
they were before the first. -/
theorem Inverts.trans (hp : Inverts p d d') (hq : Inverts q d' d'')
    (hpq : ∀ c r, p c r = true → q c r = false) : Inverts (fun c r => p c r || q c r) d d'' := by
  obtain ⟨hpixel, hflag⟩ := hp
  obtain ⟨hpixel', hflag'⟩ := hq
  have huntouched : ∀ c < 64, ∀ r < 32, q c r = true → d'.1.pixel c r = d.1.pixel c r := by
    intro c hc r hr hqc
    cases hpc : p c r with
    | true =>
      rw [hpq c r hpc] at hqc
      cases hqc
    | false => rw [hpixel c hc r hr, hpc, Bool.xor_false]
  constructor
  · intro c hc r hr
    rw [hpixel' c hc r hr, hpixel c hc r hr, Bool.xor_assoc]
    have heither : (p c r ^^ q c r) = (p c r || q c r) := by
      cases hpc : p c r with
      | true => rw [hpq c r hpc]; rfl
      | false => rw [Bool.false_xor, Bool.false_or]
    exact congrArg _ heither
  · rw [hflag', hflag, or_assoc]
    refine or_congr_right ?_
    constructor
    · rintro (⟨c, hc, r, hr, hpc, hlit⟩ | ⟨c, hc, r, hr, hqc, hlit⟩)
      · exact ⟨c, hc, r, hr, Bool.or_eq_true_iff.2 (.inl hpc), hlit⟩
      · exact ⟨c, hc, r, hr, Bool.or_eq_true_iff.2 (.inr hqc), huntouched c hc r hr hqc ▸ hlit⟩
    · rintro ⟨c, hc, r, hr, heither, hlit⟩
      rcases Bool.or_eq_true_iff.1 heither with hpc | hqc
      · exact .inl ⟨c, hc, r, hr, hpc, hlit⟩
      · exact .inr ⟨c, hc, r, hr, hqc, (huntouched c hc r hr hqc).symm ▸ hlit⟩

/-! ### The loops -/

/-- Masking a byte with a shifted top bit tests one of its bits. -/
theorem and_shifted_eq_zero_iff (b : UInt8) (hk : k < 8) :
    b &&& 0x80 >>> UInt8.ofNat k = 0 ↔ b.toBitVec.getMsbD k = false := by
  have hmask : ((0x80 : UInt8) >>> UInt8.ofNat k).toNat = 2 ^ (7 - k) := by
    interval_cases k <;> rfl
  rw [← UInt8.toNat_inj, UInt8.toNat_and, hmask, Nat.and_two_pow, BitVec.getMsbD_eq_getLsbD,
    decide_eq_true hk, Bool.true_and]
  show _ = 0 ↔ b.toNat.testBit (7 - k) = false
  cases b.toNat.testBit (7 - k) <;> simp

theorem exists_drawBit? (b : UInt8) (d : Frame × Bool) (hk : k < 8) (hx : x + k < 64)
    (hy : y < 32) :
    ∃ d', drawBit? b x y d k = some d' ∧
      Inverts (fun c r => decide (c = x + k ∧ r = y) && b.toBitVec.getMsbD k) d d' := by
  have hshift : shiftRight? 0x80 k = some (0x80 >>> UInt8.ofNat k) := if_pos hk
  unfold drawBit?
  rw [hshift, Option.bind_eq_bind, Option.bind_some]
  cases hb : b.toBitVec.getMsbD k with
  | false =>
    rw [if_pos ((and_shifted_eq_zero_iff b hk).2 hb)]
    exact ⟨d, rfl, Inverts.refl (fun _ _ _ _ => Bool.and_false _) d⟩
  | true =>
    have hset : b &&& 0x80 >>> UInt8.ofNat k ≠ 0 := by
      rw [ne_eq, and_shifted_eq_zero_iff b hk, hb]
      exact Bool.noConfusion
    have hlit : d.1.pixel? (x + k) y = some (d.1.pixel (x + k) y) := if_pos ⟨hx, hy⟩
    obtain ⟨g, hg, hpixel⟩ := d.1.exists_setPixel? (!d.1.pixel (x + k) y) hx hy
    rw [if_neg hset, hlit]
    refine ⟨(g, d.2 || d.1.pixel (x + k) y), ?_, fun c hc r hr => ?_, ?_⟩
    · show (d.1.setPixel? (x + k) y (!d.1.pixel (x + k) y)).bind _ = _
      rw [hg]
      rfl
    · show g.pixel c r = (d.1.pixel c r ^^ (decide (c = x + k ∧ r = y) && true))
      rw [hpixel c hc r hr, Bool.and_true]
      by_cases hcr : c = x + k ∧ r = y
      · obtain ⟨rfl, rfl⟩ := hcr
        simp
      · simp [hcr]
    · rw [Bool.or_eq_true_iff]
      refine or_congr_right ?_
      constructor
      · intro hmet
        exact ⟨x + k, hx, y, hy, by simp, hmet⟩
      · rintro ⟨c, -, r, -, hcr, hmet⟩
        obtain ⟨rfl, rfl⟩ : c = x + k ∧ r = y := by simpa using hcr
        exact hmet

/-- A row of a sprite: as many of its bits as there are columns. -/
theorem exists_drawRow? (b : UInt8) (d : Frame × Bool) {columns : ℕ} (hk : columns ≤ 8)
    (hx : x + columns ≤ 64) (hy : y < 32) :
    ∃ d', drawRow? b x y columns d = some d' ∧
      Inverts (fun c r => decide (x ≤ c ∧ c < x + columns ∧ r = y) &&
        b.toBitVec.getMsbD (c - x)) d d' := by
  unfold drawRow?
  induction columns with
  | zero =>
    refine ⟨d, rfl, Inverts.refl (fun c _ r _ => ?_) d⟩
    rw [decide_eq_false (by omega), Bool.false_and]
  | succ k ih =>
    obtain ⟨d', hd', hleft⟩ := ih (by omega) (by omega)
    obtain ⟨d'', hd'', hbit⟩ := exists_drawBit? (x := x) (y := y) b d' hk (by omega) hy
    refine ⟨d'', ?_, ?_⟩
    · rw [List.range_succ, List.foldlM_append, hd']
      show (drawBit? b x y d' k).bind some = _
      rw [hd'']
      rfl
    · refine (hleft.trans hbit fun c r hc => ?_).congr fun c _ r _ => ?_
      · rw [Bool.and_eq_true, decide_eq_true_iff] at hc
        rw [decide_eq_false (by omega), Bool.false_and]
      · by_cases hlast : c = x + k
        · subst hlast
          simp
        · have hsame : (x ≤ c ∧ c < x + (k + 1) ∧ r = y) ↔ x ≤ c ∧ c < x + k ∧ r = y := by omega
          simp [hlast, hsame]

/-- The rows of a sprite from row `y` on. -/
theorem exists_drawRows? (bs : List UInt8) (d : Frame × Bool) {columns : ℕ} (hk : columns ≤ 8)
    (hx : x + columns ≤ 64) (hy : y + bs.length ≤ 32) :
    ∃ d', drawRows? x y columns bs d = some d' ∧
      Inverts (fun c r => decide (x ≤ c ∧ c < x + columns ∧ y ≤ r) &&
        ((bs[r - y]?).getD 0).toBitVec.getMsbD (c - x)) d d' := by
  induction bs generalizing y d with
  | nil => exact ⟨d, rfl, Inverts.refl (fun c _ r _ => by simp) d⟩
  | cons b bs ih =>
    rw [List.length_cons] at hy
    obtain ⟨d', hd', hfirst⟩ := exists_drawRow? (x := x) (y := y) b d hk hx (by omega)
    obtain ⟨d'', hd'', hrest⟩ := ih (y := y + 1) d' (by omega)
    refine ⟨d'', ?_, ?_⟩
    · show (drawRow? b x y columns d).bind _ = _
      rw [hd']
      exact hd''
    · refine (hfirst.trans hrest fun c r hc => ?_).congr fun c _ r _ => ?_
      · rw [Bool.and_eq_true, decide_eq_true_iff] at hc
        rw [decide_eq_false (by omega), Bool.false_and]
      · rcases Nat.lt_trichotomy r y with hr | rfl | hr
        · simp [show ¬ y ≤ r by omega, show ¬ y + 1 ≤ r by omega, show r ≠ y by omega]
        · simp [show ¬ r + 1 ≤ r by omega]
        · obtain ⟨j, rfl⟩ : ∃ j, r = y + 1 + j := ⟨r - y - 1, by omega⟩
          simp [show y + 1 + j ≠ y by omega, show y + 1 + j - y = j + 1 by omega,
            show y ≤ y + 1 + j by omega]

/-- A sprite drawn row by row, all columns that lie on the picture: the picture of the sprite is
laid over by exclusive or. -/
theorem drawRows?_eq (bs : List UInt8) (f : Frame) (hx : x < 64) (hy : y + bs.length ≤ 32) :
    drawRows? x y (min 8 (64 - x)) bs (f, false) =
      some (f ^^^ Sprite.mask x y bs, f.overlaps (Sprite.mask x y bs)) := by
  obtain ⟨d, hd, hdrawn⟩ := exists_drawRows? (x := x) (y := y) bs (f, false)
    (Nat.min_le_left 8 (64 - x)) (by omega) hy
  -- the columns left out have no bit of a byte or are off the picture
  have hmask : Inverts (fun c r => (Sprite.mask x y bs).pixel c r) (f, false) d := by
    refine hdrawn.congr fun c hc r hr => ?_
    rw [Sprite.pixel_mask, show Frame.width = 64 from rfl, show Frame.height = 32 from rfl]
    by_cases hin : x ≤ c ∧ y ≤ r
    · by_cases hright : c - x < 8
      · rw [decide_eq_true (by omega), decide_eq_true (by omega)]
      · rw [BitVec.getMsbD_of_ge _ _ (Nat.le_of_not_lt hright), Bool.and_false, Bool.and_false]
    · rw [decide_eq_false (by omega), Bool.false_and, decide_eq_false (by omega), Bool.false_and]
  obtain ⟨hpixel, hflag⟩ := hmask
  rw [hd]
  refine congrArg some (Prod.ext ?_ ?_)
  · ext c hc r hr
    rw [Frame.pixel_xor]
    exact hpixel c hc r hr
  · rw [Bool.eq_iff_iff, hflag, Frame.overlaps_iff]
    constructor
    · rintro (hfalse | ⟨c, -, r, -, hc, hlit⟩)
      · cases hfalse
      · exact ⟨c, r, hlit, hc⟩
    · rintro ⟨c, r, hlit, hc⟩
      obtain ⟨hcw, hrh⟩ := Frame.lt_of_pixel hlit
      exact .inr ⟨c, hcw, r, hrh, hc, hlit⟩

end Checked

namespace State

open Checked

/-- A checked drawing is a drawing. -/
theorem checkedDraw?_eq (s : State) (v w : Register) (rows : Fin 16) :
    s.checkedDraw? v.val w.val rows.val = some (s.draw v w rows) := by
  have hv : (s.register v).toNat % Frame.width = s.spriteColumn v := rfl
  have hw : (s.register w).toNat % Frame.height = s.spriteRow w := rfl
  have hcolumn : s.spriteColumn v < 64 := Nat.mod_lt _ (by decide)
  have hrow : s.spriteRow w < 32 := Nat.mod_lt _ (by decide)
  have hbelow : sub? Frame.height (s.spriteRow w) = some (32 - s.spriteRow w) :=
    sub?_of_le hrow.le
  have hbeyond : sub? Frame.width (s.spriteColumn v) = some (64 - s.spriteColumn v) :=
    sub?_of_le hcolumn.le
  have hheight : min (min rows.val Sprite.maxHeight) (32 - s.spriteRow w) = s.spriteHeight w rows :=
    congrArg (min · _) (Nat.min_eq_left rows.isLt.le)
  have hend : s.spriteRow w + s.spriteHeight w rows ≤ 32 := by
    have hle : s.spriteHeight w rows ≤ 32 - s.spriteRow w := Nat.min_le_right _ _
    omega
  have hbuffer : s.spriteHeight w rows ≤ Sprite.maxHeight :=
    (Nat.min_le_left _ _).trans rows.isLt.le
  have hword : (UInt64.ofNat (s.spriteHeight w rows)).toNat = s.spriteHeight w rows :=
    UInt64.toNat_ofNat_of_lt' (Nat.lt_of_le_of_lt hbuffer (by decide))
  have hread : s.checkedRead? s.index.toUInt64 (.ofNat (s.spriteHeight w rows)) =
      some (s.read s.index.toNat (s.spriteHeight w rows)).value := by
    rw [checkedRead?_eq, UInt16.toNat_toUInt64, hword]
  unfold checkedDraw? draw
  simp only [register?_eq_some, Option.bind_eq_bind, Option.bind_some, hv, hw, hbelow, hbeyond,
    hheight, guard_of hbuffer, hread]
  by_cases h : s.index.toNat + s.spriteHeight w rows ≤ Memory.size
  · have hlength := s.memory.length_window s.index.toNat (s.spriteHeight w rows)
    rw [s.read_of_le h]
    generalize s.memory.window s.index.toNat (s.spriteHeight w rows) = bs at hlength
    have hdrawn := drawRows?_eq bs s.frame hcolumn (hlength ▸ hend)
    refine (copyInto?_bind_slice? _ hlength hbuffer _).trans ?_
    rw [hdrawn, Option.bind_some]
    exact congrArg (Option.bind · _) (setRegister?_eq_some _ flagRegister _)
  · rw [s.read_of_lt (Nat.lt_of_not_le h)]
    rfl

end State

end ChipEight
