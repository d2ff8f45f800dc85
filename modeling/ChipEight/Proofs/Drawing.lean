import ChipEight.Proofs.CheckedDrawing
import ChipEight.Proofs.Recognition

/-!
# Drawing, pixel by pixel

A sprite is drawn by exclusive or with a picture that holds nothing else.  Seen from its pixels: the
sprite lights those pixels of a block of eight columns, as high as the word says, whose bit is set;
what of the block lies beyond the right and the bottom edge is left out.  The loops that invert one
pixel after another, and keep in mind whether one of them was lit, draw the same.

* `State.SpriteLights`: the pixels that a sprite lights;
* `State.spriteMask`, `State.pixel_spriteMask`: the picture that is drawn has these pixels;
* `draw_pixel_exact`: the main result.
-/

namespace ChipEight

open Opcode

namespace State

variable {s : State} {v w : Register} {rows : Fin 16} {c r : ℕ}

/-- Whether a sprite lights the pixel in column `c` of row `r`: the bytes at the index register are
its rows, and the values of the registers `v` and `w`, wrapped around the picture, are the column
and the row of its upper left corner. -/
def SpriteLights (s : State) (v w : Register) (rows c r : ℕ) : Prop :=
  let ox := (s.register v).toNat % 64
  let oy := (s.register w).toNat % 32
  (ox ≤ c ∧ c < ox + 8) ∧ (oy ≤ r ∧ r < oy + rows) ∧
    (s.memory.byte (s.index.toNat + (r - oy))).toNat.testBit (7 - (c - ox)) = true

instance (s : State) (v w : Register) (rows c r : ℕ) : Decidable (s.SpriteLights v w rows c r) :=
  inferInstanceAs (Decidable (_ ∧ _))

/-- The picture that is drawn. -/
def spriteMask (s : State) (v w : Register) (rows : Fin 16) : Frame :=
  Sprite.mask (s.spriteColumn v) (s.spriteRow w)
    (s.memory.window s.index.toNat (s.spriteHeight w rows))

/-- A bit counted from the left is a bit of the value counted from the right. -/
theorem getMsbD_toBitVec (b : UInt8) (k : ℕ) :
    b.toBitVec.getMsbD k = (decide (k < 8) && b.toNat.testBit (7 - k)) := by
  rw [BitVec.getMsbD_eq_getLsbD]
  rfl

/-- A row of the sprite that lies on the picture is read. -/
theorem getD_window_spriteRow (htop : s.spriteRow w ≤ r) (hr : r < 32) :
    ((s.memory.window s.index.toNat (s.spriteHeight w rows))[r - s.spriteRow w]?).getD 0 =
      if r < s.spriteRow w + rows then s.memory.byte (s.index.toNat + (r - s.spriteRow w))
      else 0 := by
  have hheight : r - s.spriteRow w < s.spriteHeight w rows ↔ r < s.spriteRow w + rows := by
    unfold spriteHeight Frame.height
    omega
  rw [Memory.getElem?_window, if_congr hheight rfl rfl]
  split <;> rfl

/-- On the picture, the pixels that are drawn are those that the sprite lights. -/
theorem pixel_spriteMask (hc : c < 64) (hr : r < 32) :
    (s.spriteMask v w rows).pixel c r = decide (s.SpriteLights v w rows c r) := by
  rw [Bool.eq_iff_iff, decide_eq_true_iff, spriteMask, Sprite.pixel_mask, Bool.and_eq_true,
    decide_eq_true_iff, getMsbD_toBitVec, Bool.and_eq_true, decide_eq_true_iff]
  constructor
  · rintro ⟨⟨hleft, -, htop, -⟩, hright, hbit⟩
    rw [getD_window_spriteRow htop hr] at hbit
    by_cases hbottom : r < s.spriteRow w + rows
    · rw [if_pos hbottom] at hbit
      have hright' : c < s.spriteColumn v + 8 := by omega
      exact ⟨⟨hleft, hright'⟩, ⟨htop, hbottom⟩, hbit⟩
    · rw [if_neg hbottom, UInt8.toNat_zero, Nat.zero_testBit] at hbit
      cases hbit
  · rintro ⟨⟨hleft, hright⟩, ⟨htop, hbottom⟩, hbit⟩
    have hright' : c - s.spriteColumn v < 8 := Nat.sub_lt_left_of_lt_add hleft hright
    have hbottom' : r < s.spriteRow w + rows := hbottom
    rw [getD_window_spriteRow htop hr, if_pos hbottom']
    exact ⟨⟨hleft, hc, htop, hr⟩, hright', hbit⟩

/-- A picture meets what is drawn where the sprite lights a pixel that is lit already. -/
theorem overlaps_spriteMask_iff {f : Frame} :
    f.overlaps (s.spriteMask v w rows) = true ↔
      ∃ c < 64, ∃ r < 32, s.SpriteLights v w rows c r ∧ f.pixel c r = true := by
  rw [Frame.overlaps_iff]
  constructor
  · rintro ⟨c, r, hlit, hmask⟩
    obtain ⟨hc, hr⟩ : c < 64 ∧ r < 32 := Frame.lt_of_pixel hlit
    rw [pixel_spriteMask hc hr, decide_eq_true_iff] at hmask
    exact ⟨c, hc, r, hr, hmask, hlit⟩
  · rintro ⟨c, hc, r, hr, hmask, hlit⟩
    exact ⟨c, r, hlit, by rw [pixel_spriteMask hc hr, decide_eq_true_iff]; exact hmask⟩

end State

/-- A word that draws, if the rows of its sprite that lie on the picture are in memory. -/
theorem execute_of_draw {c : Surroundings} {random : RandomSource} {s : State} {op : UInt16}
    (hop : (group op).val = 0xD)
    (hfit : s.index.toNat + s.spriteHeight (y op) (n op) ≤ Memory.size) :
    execute c random s op =
      ⟨.done .redraw (s.drawSprite (s.spriteMask (x op) (y op) (n op))).advance, random⟩ := by
  have hd : Instruction.decode? op = some (.draw (x op) (y op) (n op)) :=
    Instruction.decode?_eq_some_iff.2 ⟨hop, rfl, rfl, rfl⟩
  have hok : (Instruction.draw (x op) (y op) (n op)).refusal? c.dialect.stackLimit s = none :=
    State.accessFault?_eq_none_iff.2 hfit
  exact execute_of_accepted hd hok

/-- **A sprite is drawn exactly.**  Where the rows of a sprite that lie on the picture are in
memory, its word asks for a redraw and inverts those pixels of the picture that the sprite lights,
and no others; the register VF, whose old value may be a coordinate, becomes one if any of them was
lit and zero otherwise.  The program counter moves on, and nothing else changes.  A sprite that
lights nothing on the picture, such as one without rows, leaves the picture as it is and VF at
zero.  The loops over the rows that are read, and in each over the bits that lie on the picture,
lead to this picture and this VF. -/
theorem draw_pixel_exact (c : Surroundings) (random : RandomSource) (s : State) (op : UInt16)
    (hop : (group op).val = 0xD)
    (hfit : s.index.toNat + min (n op).val (32 - (s.register (y op)).toNat % 32) ≤ 4096) :
    let t := execute c random s op
    let S := s.SpriteLights (x op) (y op) (n op)
    t.value = .ok .redraw ∧
      (∀ cx < 64, ∀ cy < 32,
        t.state.frame.pixel cx cy = (s.frame.pixel cx cy ^^ decide (S cx cy))) ∧
      ((∃ cx < 64, ∃ cy < 32, S cx cy ∧ s.frame.pixel cx cy = true) →
        t.state.register flagRegister = 1) ∧
      ((¬ ∃ cx < 64, ∃ cy < 32, S cx cy ∧ s.frame.pixel cx cy = true) →
        t.state.register flagRegister = 0) ∧
      t.state.pc = s.pc + 2 ∧
      (∀ v ≠ flagRegister, t.state.register v = s.register v) ∧
      t.state.index = s.index ∧ t.state.memory = s.memory ∧ t.state.stack = s.stack ∧
      t.state.delayTimer = s.delayTimer ∧ t.state.soundTimer = s.soundTimer ∧
      t.random = random ∧
      ((n op).val = 0 ∨ (∀ cx < 64, ∀ cy < 32, ¬ S cx cy) →
        t.state.frame = s.frame ∧ t.state.register flagRegister = 0) ∧
      let ox := (s.register (x op)).toNat % 64
      let oy := (s.register (y op)).toNat % 32
      Checked.drawRows? ox oy (min 8 (64 - ox))
          (s.memory.window s.index.toNat (min (n op).val (32 - oy))) (s.frame, false) =
        some (t.state.frame, t.state.register flagRegister == 1) := by
  intro t S
  have ht : t =
      ⟨.done .redraw (s.drawSprite (s.spriteMask (x op) (y op) (n op))).advance, random⟩ :=
    execute_of_draw hop hfit
  have hpixel : ∀ cx < 64, ∀ cy < 32,
      t.state.frame.pixel cx cy = (s.frame.pixel cx cy ^^ decide (S cx cy)) := by
    intro cx hcx cy hcy
    rw [← State.pixel_spriteMask hcx hcy, ← Frame.pixel_xor, ht]
    rfl
  have hflag : t.state.register flagRegister =
      State.flagValue (s.frame.overlaps (s.spriteMask (x op) (y op) (n op))) := by
    rw [ht]
    exact State.register_setRegister_self ..
  have hclear : (¬ ∃ cx < 64, ∃ cy < 32, S cx cy ∧ s.frame.pixel cx cy = true) →
      t.state.register flagRegister = 0 := by
    intro hnone
    rw [hflag, Bool.eq_false_iff.2 (mt State.overlaps_spriteMask_iff.1 hnone)]
    rfl
  refine ⟨by rw [ht]; rfl, hpixel, ?_, hclear, by rw [ht]; rfl, ?_, by rw [ht]; rfl,
    by rw [ht]; rfl, by rw [ht]; rfl, by rw [ht]; rfl, by rw [ht]; rfl, by rw [ht], ?_, ?_⟩
  · intro hsome
    rw [hflag, State.overlaps_spriteMask_iff.2 hsome]
    rfl
  · intro v hv
    rw [ht]
    exact State.register_setRegister_of_ne _ _ hv.symm
  · intro hnothing
    have hdark : ∀ cx < 64, ∀ cy < 32, ¬ S cx cy := by
      rcases hnothing with hrows | hdark
      · rintro cx - cy - ⟨-, ⟨htop, hbottom⟩, -⟩
        omega
      · exact hdark
    refine ⟨Frame.ext fun cx hcx cy hcy => ?_, hclear ?_⟩
    · rw [hpixel cx hcx cy hcy, decide_eq_false (hdark cx hcx cy hcy), Bool.xor_false]
    · rintro ⟨cx, hcx, cy, hcy, hS, -⟩
      exact hdark cx hcx cy hcy hS
  · intro ox oy
    have hcolumn : ox < 64 := Nat.mod_lt _ (by decide)
    have hrow : oy < 32 := Nat.mod_lt _ (by decide)
    have hmet : (t.state.register flagRegister == 1) =
        s.frame.overlaps (s.spriteMask (x op) (y op) (n op)) := by
      rw [hflag]
      cases s.frame.overlaps (s.spriteMask (x op) (y op) (n op)) <;> rfl
    rw [hmet, ht]
    refine Checked.drawRows?_eq _ s.frame hcolumn ?_
    rw [Memory.length_window]
    omega

/-- A state whose pixel in the lower right corner is lit, with a sprite in the last two bytes of
memory. -/
def cornerState : State :=
  ({ State.initial with
      index := 0xFFE
      memory := State.initial.memory.store 0xFFE [0xFF, 0x40]
      frame := Frame.ofRows fun r => if r = 31 then 1#64 else 0#64 }.setRegister flagRegister 0x3E)
    |>.setRegister ⟨1, by decide⟩ 0xFE

theorem byte_cornerState (a : ℕ) : cornerState.memory.byte a =
    if a = 0xFFE then 0xFF else if a = 0xFFF then 0x40 else State.initial.memory.byte a := by
  show (State.initial.memory.store 0xFFE [0xFF, 0x40]).byte a = _
  rw [Memory.byte_store, Memory.size]
  split
  · next h =>
    obtain rfl | rfl : a = 0xFFE ∨ a = 0xFFF := by omega
    · rfl
    · rfl
  · next h => rw [if_neg (by omega), if_neg (by omega)]

/-- Of five rows drawn at `(62, 30)`, the column being the value of VF, two are read, and each is
cut off after two pixels. -/
theorem draw_pixel_exact_at_corner :
    let t := execute ⟨{}, fun _ => false⟩ (RandomSource.ofSeed 0) cornerState 0xDF15
    (group 0xDF15).val = 0xD ∧
      cornerState.index.toNat +
        min (n 0xDF15).val (32 - (cornerState.register (y 0xDF15)).toNat % 32) ≤ 4096 ∧
      t.value = .ok .redraw ∧ t.state.register flagRegister = 1 ∧
      t.state.frame.pixel 62 30 = true ∧ t.state.frame.pixel 63 30 = true ∧
      t.state.frame.pixel 63 31 = false ∧ t.state.frame.pixel 0 30 = false := by
  intro t
  have hop : (group 0xDF15).val = 0xD := by decide
  have hfit : cornerState.index.toNat +
      min (n 0xDF15).val (32 - (cornerState.register (y 0xDF15)).toNat % 32) ≤ 4096 := by
    decide +kernel
  obtain ⟨hvalue, hpixel, hsome, -⟩ := draw_pixel_exact ⟨{}, fun _ => false⟩
    (RandomSource.ofSeed 0) cornerState 0xDF15 hop hfit
  let S := cornerState.SpriteLights (x 0xDF15) (y 0xDF15) (n 0xDF15)
  have hlights : S 62 30 ∧ S 63 30 ∧ S 63 31 ∧ ¬ S 0 30 := by decide +kernel
  obtain ⟨h62, h63, hlast, h0⟩ := hlights
  refine ⟨hop, hfit, hvalue, hsome ⟨63, by decide, 31, by decide, hlast, by decide +kernel⟩,
    (hpixel 62 (by decide) 30 (by decide)).trans ?_,
    (hpixel 63 (by decide) 30 (by decide)).trans ?_,
    (hpixel 63 (by decide) 31 (by decide)).trans ?_,
    (hpixel 0 (by decide) 30 (by decide)).trans ?_⟩
  · rw [decide_eq_true h62]; decide +kernel
  · rw [decide_eq_true h63]; decide +kernel
  · rw [decide_eq_true hlast]; decide +kernel
  · rw [decide_eq_false h0]; decide +kernel

end ChipEight
