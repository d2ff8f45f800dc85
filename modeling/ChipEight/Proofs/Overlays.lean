import ChipEight.Proofs.Drawing

/-!
# Sprites over sprites

A sprite whose coordinates do not stand in VF is drawn at the same place, from the same bytes,
however many of its kind were drawn before: drawing changes VF, the program counter and the picture
only, and such a sprite reads none of them.  A list of drawings therefore inverts each pixel as
often as one of its sprites lights it, in whatever order they come, and what is drawn twice is gone.

* `State.overlaid`: the states that drawing leads to from a given one;
* `executeAll_of_draws`: a list of drawings, seen from the state in which it begins;
* `overlays_commute`: the main result.
-/

namespace ChipEight

open Opcode

/-- Whether a word draws a sprite whose coordinates do not stand in VF. -/
def Opcode.DrawsAside (op : UInt16) : Prop :=
  (group op).val = 0xD ∧ x op ≠ flagRegister ∧ y op ≠ flagRegister

instance (op : UInt16) : Decidable (DrawsAside op) := inferInstanceAs (Decidable (_ ∧ _))

namespace State

variable {s : State} {v w : Register} {rows : Fin 16}

/-- The sprite that a word draws, cut off at the edges, as a picture. -/
def sprite (s : State) (op : UInt16) : Frame := s.spriteMask (x op) (y op) (n op)

/-- A picture with the sprites of some words drawn on it. -/
def overlay (s : State) (f : Frame) (ops : List UInt16) : Frame :=
  ops.foldl (fun f op => f ^^^ s.sprite op) f

/-- The state with other values in what drawing changes: VF, the program counter, the picture. -/
def overlaid (s : State) (flag : UInt8) (pc : UInt16) (f : Frame) : State :=
  { s.setRegister flagRegister flag with pc := pc, frame := f }

theorem overlaid_self (s : State) : s.overlaid (s.register flagRegister) s.pc s.frame = s := by
  have hself : s.registers.set 15 s.registers[15] = s.registers := Vector.set_getElem_self _
  unfold overlaid setRegister register
  simp only [flagRegister, Fin.getElem_fin]
  rw [hself]

theorem overlaid_overlaid (s : State) (flag flag' : UInt8) (pc pc' : UInt16) (f f' : Frame) :
    (s.overlaid flag pc f).overlaid flag' pc' f' = s.overlaid flag' pc' f' := by
  simp [overlaid, setRegister]

@[simp] theorem register_overlaid_flag (s : State) (flag : UInt8) (pc : UInt16) (f : Frame) :
    (s.overlaid flag pc f).register flagRegister = flag := s.register_setRegister_self _ _

theorem register_overlaid_of_ne (flag : UInt8) (pc : UInt16) (f : Frame)
    (h : v ≠ flagRegister) : (s.overlaid flag pc f).register v = s.register v :=
  s.register_setRegister_of_ne _ h.symm

/-- Two states that drawing leads to differ at most in VF, the program counter and the picture. -/
theorem eq_setRegister_overlaid (s : State) (flag flag' : UInt8) (pc : UInt16) (f : Frame) :
    s.overlaid flag' pc f = (s.overlaid flag pc f).setRegister flagRegister flag' := by
  simp [overlaid, setRegister]

theorem advance_drawSprite (s : State) (f : Frame) :
    (s.drawSprite f).advance =
      s.overlaid (flagValue (s.frame.overlaps f)) (s.pc + 2) (s.frame ^^^ f) := rfl

/-! ### Sprites after drawings -/

variable {op : UInt16} {flag : UInt8} {pc : UInt16} {f : Frame}

theorem spriteHeight_overlaid (h : w ≠ flagRegister) :
    (s.overlaid flag pc f).spriteHeight w rows = s.spriteHeight w rows := by
  unfold spriteHeight spriteRow
  rw [register_overlaid_of_ne flag pc f h]

/-- A drawing leaves the sprites that do not look at VF as they were. -/
theorem sprite_overlaid (h : DrawsAside op) : (s.overlaid flag pc f).sprite op = s.sprite op := by
  obtain ⟨-, hx, hy⟩ := h
  unfold sprite spriteMask spriteColumn spriteRow
  rw [spriteHeight_overlaid hy, register_overlaid_of_ne flag pc f hx,
    register_overlaid_of_ne flag pc f hy]
  rfl

/-! ### Pictures with sprites drawn on them -/

@[simp] theorem overlay_nil (s : State) (f : Frame) : s.overlay f [] = f := rfl

@[simp] theorem overlay_cons (s : State) (f : Frame) (op : UInt16) (ops : List UInt16) :
    s.overlay f (op :: ops) = s.overlay (f ^^^ s.sprite op) ops := rfl

theorem overlay_perm {ops ops' : List UInt16} (s : State) (f : Frame) (h : ops'.Perm ops) :
    s.overlay f ops' = s.overlay f ops := by
  refine h.foldl_eq' (fun a _ b _ g => ?_) f
  ext c _ r _
  simp only [Frame.pixel_xor]
  exact Bool.xor_right_comm _ _ _

/-- A pixel is inverted once for each sprite that lights it. -/
theorem pixel_overlay (s : State) (ops : List UInt16) {c r : ℕ} (hc : c < 64) (hr : r < 32) :
    (s.overlay f ops).pixel c r =
      ops.foldl (fun lit op => lit ^^ decide (s.SpriteLights (x op) (y op) (n op) c r))
        (f.pixel c r) := by
  induction ops generalizing f with
  | nil => rfl
  | cons op ops ih =>
    rw [overlay_cons, ih, List.foldl_cons, Frame.pixel_xor, sprite, pixel_spriteMask hc hr]

theorem overlay_twice (s : State) (f : Frame) (op : UInt16) : s.overlay f [op, op] = f := by
  ext c _ r _
  simp

end State

/-! ### Lists of drawings -/

section

variable {c : Surroundings} {r : RandomSource} {s : State} {op : UInt16} {ops : List UInt16}

/-- A drawing that is not refused has the rows of its sprite in memory. -/
theorem fits_of_draw_ok {f : Effect} (hop : (group op).val = 0xD)
    (h : (execute c r s op).value = .ok f) :
    s.index.toNat + s.spriteHeight (y op) (n op) ≤ Memory.size := by
  by_contra hlong
  have hd : Instruction.decode? op = some (.draw (x op) (y op) (n op)) :=
    Instruction.decode?_eq_some_iff.2 ⟨hop, rfl, rfl, rfl⟩
  have hrefused : (Instruction.draw (x op) (y op) (n op)).refusal? c.dialect.stackLimit s =
      some (Memory.outside s.index.toNat) :=
    State.accessFault?_eq_some_iff.2 ⟨Nat.lt_of_not_le hlong, rfl⟩
  rw [execute_of_decode?_eq_some hd, Instruction.execute_of_refused hrefused] at h
  cases h

/-- A drawing after others, seen from the state before all of them. -/
theorem execute_overlaid {flag : UInt8} {pc : UInt16} {f : Frame} (hop : DrawsAside op)
    (hfit : s.index.toNat + s.spriteHeight (y op) (n op) ≤ Memory.size) :
    execute c r (s.overlaid flag pc f) op =
      ⟨.done .redraw
        (s.overlaid (State.flagValue (f.overlaps (s.sprite op))) (pc + 2) (f ^^^ s.sprite op)),
        r⟩ := by
  obtain ⟨hd, hx, hy⟩ := hop
  have hfit' : (s.overlaid flag pc f).index.toNat +
      (s.overlaid flag pc f).spriteHeight (y op) (n op) ≤ Memory.size := by
    rw [State.spriteHeight_overlaid hy]
    exact hfit
  have hsprite : (s.overlaid flag pc f).sprite op = s.sprite op :=
    State.sprite_overlaid ⟨hd, hx, hy⟩
  rw [execute_of_draw hd hfit', State.advance_drawSprite, State.overlaid_overlaid]
  unfold State.sprite at hsprite ⊢
  rw [hsprite]
  rfl

/-- Of a list of drawings none is refused if none would be in the state in which the list begins;
the picture gets all their sprites. -/
theorem executeAll_of_draws (hops : ∀ op ∈ ops, DrawsAside op)
    (hfit : ∀ op ∈ ops, s.index.toNat + s.spriteHeight (y op) (n op) ≤ Memory.size)
    (flag : UInt8) (pc : UInt16) (f : Frame) :
    ∃ flag', executeAll c r (s.overlaid flag pc f) ops =
      .done (ops.map fun _ => .redraw)
        (s.overlaid flag' ((· + 2)^[ops.length] pc) (s.overlay f ops)) := by
  induction ops generalizing flag pc f with
  | nil => exact ⟨flag, rfl⟩
  | cons op ops ih =>
    have hrest : ∀ op' ∈ ops, op' ∈ op :: ops := fun _ => List.mem_cons_of_mem op
    obtain ⟨flag', htail⟩ := ih (fun op' hmem => hops op' (hrest op' hmem))
      (fun op' hmem => hfit op' (hrest op' hmem))
      (State.flagValue (f.overlaps (s.sprite op))) (pc + 2) (f ^^^ s.sprite op)
    refine ⟨flag', ?_⟩
    rw [executeAll_cons_of_ok ops (execute_overlaid (hops op List.mem_cons_self)
      (hfit op List.mem_cons_self)), htail]
    rfl

theorem flagValue_eq_one_iff {on : Bool} : State.flagValue on = 1 ↔ on = true := by
  cases on <;> decide

/-- A drawing leaves VF raised where its sprite meets the picture. -/
theorem flag_overlaid_iff {pc : UInt16} {f g : Frame} :
    (s.overlaid (State.flagValue (f.overlaps (s.sprite op))) pc g).register flagRegister = 1 ↔
      ∃ cx < 64, ∃ cy < 32,
        s.SpriteLights (x op) (y op) (n op) cx cy ∧ f.pixel cx cy = true := by
  rw [State.register_overlaid_flag, flagValue_eq_one_iff]
  exact State.overlaps_spriteMask_iff

/-- Once its sprite is drawn, a word finds those of the sprite's pixels lit that were dark
before. -/
theorem meets_again_iff {f : Frame} :
    (∃ cx < 64, ∃ cy < 32, s.SpriteLights (x op) (y op) (n op) cx cy ∧
        (f ^^^ s.sprite op).pixel cx cy = true) ↔
      ∃ cx < 64, ∃ cy < 32, s.SpriteLights (x op) (y op) (n op) cx cy ∧
        f.pixel cx cy = false := by
  have hpixel : ∀ cx < 64, ∀ cy < 32, s.SpriteLights (x op) (y op) (n op) cx cy →
      ((f ^^^ s.sprite op).pixel cx cy = true ↔ f.pixel cx cy = false) := by
    intro cx hcx cy hcy hlights
    rw [Frame.pixel_xor, State.sprite, State.pixel_spriteMask hcx hcy, decide_eq_true hlights,
      Bool.xor_true, Bool.not_eq_true']
  constructor
  · rintro ⟨cx, hcx, cy, hcy, hlights, hlit⟩
    exact ⟨cx, hcx, cy, hcy, hlights, (hpixel cx hcx cy hcy hlights).1 hlit⟩
  · rintro ⟨cx, hcx, cy, hcy, hlights, hdark⟩
    exact ⟨cx, hcx, cy, hcy, hlights, (hpixel cx hcx cy hcy hlights).2 hdark⟩

/-- A word drawn once and twice: what becomes of VF, and the picture is the one from before. -/
theorem draw_twice (hop : DrawsAside op)
    (hfit : s.index.toNat + s.spriteHeight (y op) (n op) ≤ Memory.size) :
    let S := s.SpriteLights (x op) (y op) (n op)
    let once := execute c r s op
    let twice := executeAll c r s [op, op]
    twice.value = .ok [.redraw, .redraw] ∧ twice.state.frame = s.frame ∧
      (once.state.register flagRegister = 1 ↔
        ∃ cx < 64, ∃ cy < 32, S cx cy ∧ s.frame.pixel cx cy = true) ∧
      (twice.state.register flagRegister = 1 ↔
        ∃ cx < 64, ∃ cy < 32, S cx cy ∧ s.frame.pixel cx cy = false) := by
  intro S once twice
  have honce : once = ⟨.done .redraw (s.overlaid
      (State.flagValue (s.frame.overlaps (s.sprite op))) (s.pc + 2) (s.frame ^^^ s.sprite op)),
      r⟩ := by
    have h : execute c r (s.overlaid (s.register flagRegister) s.pc s.frame) op = _ :=
      execute_overlaid hop hfit
    rwa [State.overlaid_self] at h
  have htwice : twice = .done [.redraw, .redraw] (s.overlaid
      (State.flagValue ((s.frame ^^^ s.sprite op).overlaps (s.sprite op))) (s.pc + 2 + 2)
      (s.overlay s.frame [op, op])) := by
    show executeAll c r s [op, op] = _
    rw [executeAll_cons_of_ok [op] honce,
      executeAll_cons_of_ok [] (execute_overlaid hop hfit)]
    rfl
  refine ⟨by rw [htwice]; rfl, ?_, ?_, ?_⟩
  · rw [htwice]
    exact s.overlay_twice s.frame op
  · rw [honce]
    exact flag_overlaid_iff
  · rw [htwice]
    exact flag_overlaid_iff.trans meets_again_iff

/-- Every pixel of a sprite is lit or dark. -/
theorem lights_iff_lit_or_dark {S : ℕ → ℕ → Prop} {f : Frame} :
    ((∃ cx < 64, ∃ cy < 32, S cx cy ∧ f.pixel cx cy = true) ∨
        ∃ cx < 64, ∃ cy < 32, S cx cy ∧ f.pixel cx cy = false) ↔
      ∃ cx < 64, ∃ cy < 32, S cx cy := by
  constructor
  · rintro (⟨cx, hcx, cy, hcy, hlights, -⟩ | ⟨cx, hcx, cy, hcy, hlights, -⟩)
    · exact ⟨cx, hcx, cy, hcy, hlights⟩
    · exact ⟨cx, hcx, cy, hcy, hlights⟩
  · rintro ⟨cx, hcx, cy, hcy, hlights⟩
    cases hpixel : f.pixel cx cy with
    | true => exact .inl ⟨cx, hcx, cy, hcy, hlights, hpixel⟩
    | false => exact .inr ⟨cx, hcx, cy, hcy, hlights, hpixel⟩

end

/-- **Drawings add up, in any order.**  Take any words that draw sprites at coordinates outside VF,
each of which would succeed now.  Executed one after another all of them succeed, and a pixel is
inverted once for each sprite that lights it.  In another order they succeed as well and leave the
same picture, and of the rest of the state at most VF differs.  A word drawn twice restores the
picture; the first time it raises VF if its sprite lights a pixel that was lit, the second time if
it lights one that was dark before, so one of the two times unless nothing of the sprite is on the
picture. -/
theorem overlays_commute {c : Surroundings} {r : RandomSource} {s : State} {ops : List UInt16}
    (hops : ∀ op ∈ ops, (group op).val = 0xD ∧ x op ≠ flagRegister ∧ y op ≠ flagRegister)
    (hok : ∀ op ∈ ops, ∃ f, (execute c r s op).value = .ok f) :
    let t := executeAll c r s ops
    let S (op : UInt16) := s.SpriteLights (x op) (y op) (n op)
    t.value = .ok (ops.map fun _ => .redraw) ∧
      (∀ cx < 64, ∀ cy < 32, t.state.frame.pixel cx cy =
        ops.foldl (fun lit op => lit ^^ decide (S op cx cy)) (s.frame.pixel cx cy)) ∧
      (∀ ops' : List UInt16, ops'.Perm ops →
        let t' := executeAll c r s ops'
        t'.value = .ok (ops'.map fun _ => .redraw) ∧ t'.state.frame = t.state.frame ∧
          ∃ flag, t'.state = t.state.setRegister flagRegister flag) ∧
      ∀ op ∈ ops,
        let once := execute c r s op
        let twice := executeAll c r s [op, op]
        twice.value = .ok [.redraw, .redraw] ∧ twice.state.frame = s.frame ∧
          (once.state.register flagRegister = 1 ↔
            ∃ cx < 64, ∃ cy < 32, S op cx cy ∧ s.frame.pixel cx cy = true) ∧
          (twice.state.register flagRegister = 1 ↔
            ∃ cx < 64, ∃ cy < 32, S op cx cy ∧ s.frame.pixel cx cy = false) ∧
          (once.state.register flagRegister = 1 ∨ twice.state.register flagRegister = 1 ↔
            ∃ cx < 64, ∃ cy < 32, S op cx cy) := by
  intro t S
  have hfit : ∀ op ∈ ops, s.index.toNat + s.spriteHeight (y op) (n op) ≤ Memory.size := by
    intro op hop
    obtain ⟨f, hf⟩ := hok op hop
    exact fits_of_draw_ok (hops op hop).1 hf
  have hall : ∀ ops' : List UInt16, ops'.Perm ops → ∃ flag, executeAll c r s ops' =
      .done (ops'.map fun _ => .redraw)
        (s.overlaid flag ((· + 2)^[ops.length] s.pc) (s.overlay s.frame ops)) := by
    intro ops' hperm
    obtain ⟨flag, h⟩ := executeAll_of_draws (c := c) (r := r)
      (fun op hop => hops op (hperm.mem_iff.1 hop)) (fun op hop => hfit op (hperm.mem_iff.1 hop))
      (s.register flagRegister) s.pc s.frame
    rw [State.overlaid_self, hperm.length_eq, State.overlay_perm s s.frame hperm] at h
    exact ⟨flag, h⟩
  obtain ⟨flag, ht⟩ := hall ops (List.Perm.refl ops)
  replace ht : t = _ := ht
  refine ⟨by rw [ht]; rfl, ?_, ?_, ?_⟩
  · intro cx hcx cy hcy
    rw [ht]
    exact State.pixel_overlay s ops hcx hcy
  · intro ops' hperm
    obtain ⟨flag', ht'⟩ := hall ops' hperm
    rw [ht, ht']
    exact ⟨rfl, rfl, flag', s.eq_setRegister_overlaid flag flag' _ _⟩
  · intro op hop once twice
    obtain ⟨hvalue, hframe, honce, htwice⟩ :=
      draw_twice (c := c) (r := r) (hops op hop) (hfit op hop)
    refine ⟨hvalue, hframe, honce, htwice, ?_⟩
    rw [honce, htwice]
    exact lights_iff_lit_or_dark

/-- In the lower right corner, the sprites of two words that overlap nowhere are drawn in two
orders, the one that is cut off twice.  Its pixel in the corner was lit, so VF is raised the first
time; its pixels in the row above were dark, so VF is raised the second time too. -/
theorem overlays_commute_in_corner :
    let c : Surroundings := ⟨{}, fun _ => false⟩
    let r := RandomSource.ofSeed 0
    let ops : List UInt16 := [0xD115, 0xD015, 0xD115]
    let ops' : List UInt16 := [0xD015, 0xD115, 0xD115]
    (∀ op ∈ ops, (group op).val = 0xD ∧ x op ≠ flagRegister ∧ y op ≠ flagRegister) ∧
      (∀ op ∈ ops, ∃ f, (execute c r cornerState op).value = .ok f) ∧
      (executeAll c r cornerState ops).state.frame.pixel 63 31 = true ∧
      (executeAll c r cornerState ops).state.frame.pixel 7 30 = true ∧
      (executeAll c r cornerState ops').state.frame =
        (executeAll c r cornerState ops).state.frame ∧
      (execute c r cornerState 0xD115).state.register flagRegister = 1 ∧
      (executeAll c r cornerState [0xD115, 0xD115]).state.register flagRegister = 1 ∧
      (executeAll c r cornerState [0xD115, 0xD115]).state.frame = cornerState.frame := by
  intro c r ops ops'
  have hdigits : ∀ op ∈ ops,
      ((group op).val = 0xD ∧ x op ≠ flagRegister ∧ y op ≠ flagRegister) ∧
        y op = 1 ∧ n op = 5 := by
    intro op hop
    simp only [ops, List.mem_cons, List.not_mem_nil, or_false] at hop
    rcases hop with rfl | rfl | rfl <;> decide
  have hops := fun op hop => (hdigits op hop).1
  have hfit : cornerState.index.toNat + cornerState.spriteHeight 1 5 ≤ Memory.size := by
    decide +kernel
  have hok : ∀ op ∈ ops, ∃ f, (execute c r cornerState op).value = .ok f := by
    intro op hop
    obtain ⟨⟨hgroup, -, -⟩, hy, hn⟩ := hdigits op hop
    rw [execute_of_draw hgroup (hy ▸ hn ▸ hfit)]
    exact ⟨.redraw, rfl⟩
  obtain ⟨-, hpixel, hperm, htwice⟩ := overlays_commute hops hok
  obtain ⟨-, hframe, honce, hagain, -⟩ := htwice 0xD115 List.mem_cons_self
  have hlights : cornerState.SpriteLights 1 1 5 63 31 ∧ cornerState.SpriteLights 1 1 5 62 30 := by
    unfold State.SpriteLights
    simp only [byte_cornerState]
    decide +kernel
  have hlit : cornerState.frame.pixel 63 31 = true ∧ cornerState.frame.pixel 62 30 = false := by
    decide +kernel
  refine ⟨hops, hok, (hpixel 63 (by decide) 31 (by decide)).trans ?_,
    (hpixel 7 (by decide) 30 (by decide)).trans ?_,
    (hperm ops' (List.Perm.swap _ _ _)).2.1, ?_, ?_, hframe⟩
  · unfold State.SpriteLights
    simp only [byte_cornerState]
    decide +kernel
  · unfold State.SpriteLights
    simp only [byte_cornerState]
    decide +kernel
  · exact honce.2 ⟨63, by decide, 31, by decide, hlights.1, hlit.1⟩
  · exact hagain.2 ⟨62, by decide, 30, by decide, hlights.2, hlit.2⟩

end ChipEight
