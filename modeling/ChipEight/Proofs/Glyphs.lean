import ChipEight.Proofs.Drawing
import ChipEight.Proofs.ExecutedWords
import ChipEight.Proofs.Footprint
import ChipEight.Proofs.Storage

/-!
# Glyphs

The glyphs lie at the bottom of memory, before every program.  Only `FX33` and `FX55` write to
memory, from the index register on, so the glyphs stay as long as none of the two is executed with
an index register that points into them.  As long as they do, `FX29` and `DXY5` draw the glyph of a
digit.

* `Memory.HoldsGlyphs`: the glyphs are in place;
* `Machine.byte_tick`: what a tick leaves of memory;
* `Action.holdsGlyphs_performAll`: actions that spare the glyphs;
* `Glyph.Lights`: the pixels that a glyph lights;
* `State.spriteLights_pointed_iff`: a sprite of five rows at a glyph is the glyph;
* `glyphs_drawn_as_documented`: the main result.
-/

namespace ChipEight

open Opcode

/-! ### Glyphs in memory -/

/-- The glyphs are at the bottom of memory. -/
def Memory.HoldsGlyphs (m : Memory) : Prop := m.window 0x000 0x050 = Glyph.sheet

/-- Whether a word puts bytes into memory. -/
def Opcode.stores (op : UInt16) : Bool :=
  (group op).val == 0xF && (byte op == 0x33 || byte op == 0x55)

namespace Memory

variable {m n : Memory}

theorem HoldsGlyphs.byte (h : m.HoldsGlyphs) {k : ℕ} (hk : k < 0x050) :
    m.byte k = Glyph.sheet.getD k 0 := by
  have hget := congrArg (fun bs : List UInt8 => bs[k]?) h
  simp only [getElem?_window, if_pos hk, Nat.zero_add] at hget
  rw [List.getD_eq_getElem?_getD, ← hget]
  rfl

/-- Memory that has not changed there holds the glyphs. -/
theorem HoldsGlyphs.of_byte_eq (h : m.HoldsGlyphs) (hbyte : ∀ k < 0x050, n.byte k = m.byte k) :
    n.HoldsGlyphs := by
  refine Eq.trans (List.ext_getElem? fun k => ?_) h
  rw [getElem?_window, getElem?_window]
  split
  · next hk => rw [Nat.zero_add, hbyte k hk]
  · rfl

end Memory

theorem State.holdsGlyphs_initial : State.initial.memory.HoldsGlyphs := by
  have hfit : 0x000 + Glyph.sheet.length ≤ Memory.size := by decide
  exact Memory.zero.window_store hfit

namespace Machine

variable {η : Type} {m : Machine η} {op : UInt16}

/-- A tick leaves every byte as it is unless its word stores bytes from below it on. -/
theorem byte_tick (hx : m.executed? = some op) {k : ℕ}
    (hk : stores op = true → k < m.state.index.toNat) :
    m.tick.machine.state.memory.byte k = m.state.memory.byte k := by
  obtain ⟨i, r, hd, hm⟩ := machine_tick_of_executed hx
  rw [hm]
  show (i.after m.surroundings m.random m.state).memory.byte k = m.state.memory.byte k
  by_contra hne
  obtain ⟨hg, hle, hword⟩ := Instruction.word_of_byte_ne hd hne
  have hstores : stores op = true := by
    rcases hword with ⟨hb, -⟩ | ⟨hb, -⟩ <;> simp [stores, hg, hb, -val_group]
  exact Nat.not_lt.2 hle (hk hstores)

end Machine

namespace Action

variable {η : Type} {m : Machine η} {a : Action η} {as : List (Action η)}

/-- An action that executes nothing leaves the glyphs in place, or puts them there. -/
theorem holdsGlyphs_perform_of_no_execution (h : m.state.memory.HoldsGlyphs)
    (hx : a.execution? m = none) : (a.perform m).machine.state.memory.HoldsGlyphs := by
  cases a with
  | tick =>
    obtain ⟨st, hm⟩ := Machine.machine_tick_of_not_executed (Option.map_eq_none_iff.1 hx)
    show m.tick.machine.state.memory.HoldsGlyphs
    rw [hm]
    exact h
  | reset =>
    show m.reset.machine.state.memory.HoldsGlyphs
    rw [m.state_reset]
    exact State.holdsGlyphs_initial
  | loadProgram rom =>
    refine h.of_byte_eq fun k hk => State.byte_loadProgram_of_lt_start ?_
    exact Nat.lt_trans hk (by decide)
  | _ => exact h

/-- Actions leave the glyphs in place if no word that they execute stores bytes from an address
inside the glyphs on. -/
theorem holdsGlyphs_performAll (h : m.state.memory.HoldsGlyphs)
    (hspared : ∀ e ∈ executions m as, stores e.opcode = true → 0x050 ≤ e.before.state.index.toNat) :
    (performAll m as).machine.state.memory.HoldsGlyphs := by
  -- only executions can spoil the glyphs: a load begins behind them, and a reset puts them back
  induction as generalizing m with
  | nil => exact h
  | cons a as ih =>
    rw [performAll_cons, Outcome.machine_andThen]
    cases hx : a.execution? m with
    | none =>
      rw [executions_cons_of_none hx] at hspared
      exact ih (holdsGlyphs_perform_of_no_execution h hx) hspared
    | some e =>
      rw [executions_cons_of_some hx] at hspared
      obtain ⟨rfl, rfl, hop⟩ := execution?_eq_some_iff.1 hx
      refine ih (h.of_byte_eq fun k hk => ?_) fun e' he' => hspared e' (List.mem_cons_of_mem _ he')
      exact Machine.byte_tick hop fun hs => Nat.lt_of_lt_of_le hk (hspared e List.mem_cons_self hs)

end Action

/-! ### Glyphs on the picture -/

/-- Whether the glyph of digit `d`, drawn with its upper left corner in column `ox` of row `oy`,
lights the pixel in column `c` of row `r`: the bits of its five bytes, row by row. -/
def Glyph.Lights (d ox oy c r : ℕ) : Prop :=
  (ox ≤ c ∧ c < ox + 8) ∧ (oy ≤ r ∧ r < oy + 5) ∧
    (Glyph.sheet.getD (5 * d + (r - oy)) 0).toNat.testBit (7 - (c - ox)) = true

instance (d ox oy c r : ℕ) : Decidable (Glyph.Lights d ox oy c r) :=
  inferInstanceAs (Decidable (_ ∧ _))

namespace State

variable {s : State} {u v w : Register} {c r : ℕ}

/-- The state after the index register has been pointed at the glyph of a register's value. -/
def pointed (s : State) (u : Register) : State :=
  (s.setIndex (Address.ofWord (.ofNat (Glyph.address (s.register u).toNat)))).advance

/-- No value is too large for its address. -/
theorem toNat_index_pointed (s : State) (u : Register) :
    (s.pointed u).index.toNat = 5 * (s.register u).toNat := by
  have hu := (s.register u).toNat_lt
  show (Address.ofWord (.ofNat (5 * (s.register u).toNat))).toWord.toNat = _
  rw [Address.toNat_toWord_ofWord, UInt16.toNat_ofNat']
  omega

/-- Five rows drawn from the address of a digit on are its glyph. -/
theorem spriteLights_pointed_iff (h : s.memory.HoldsGlyphs) (hd : (s.register u).toNat < 16) :
    (s.pointed u).SpriteLights v w 5 c r ↔
      Glyph.Lights (s.register u).toNat ((s.register v).toNat % 64) ((s.register w).toNat % 32)
        c r := by
  refine and_congr_right fun _ => and_congr_right fun hr => ?_
  have hk : 5 * (s.register u).toNat + (r - (s.register w).toNat % 32) < 0x050 := by
    have hlast : r < (s.register w).toNat % 32 + 5 := hr.2
    omega
  rw [toNat_index_pointed, ← h.byte hk]
  rfl

/-- What is drawn turns over the pixels that the sprite lights. -/
theorem pixel_drawSprite {rows : Fin 16} (hc : c < 64) (hr : r < 32) :
    (s.drawSprite (s.spriteMask v w rows)).frame.pixel c r =
      (s.frame.pixel c r ^^ decide (s.SpriteLights v w rows c r)) := by
  rw [← pixel_spriteMask hc hr, ← Frame.pixel_xor]
  rfl

end State

section

variable {c : Surroundings} {r : RandomSource} {s : State} {op op' : UInt16}

theorem execute_of_glyph (hop : (group op).val = 0xF ∧ byte op = 0x29) :
    execute c r s op = ⟨.done .proceed (s.pointed (x op)), r⟩ :=
  execute_of_accepted (i := .glyph (x op)) (Instruction.decode?_eq_some_iff.2 ⟨hop.1, hop.2, rfl⟩)
    rfl

/-- To point at a digit and draw five rows is to draw its glyph. -/
theorem executeAll_glyph_draw (h : s.memory.HoldsGlyphs)
    (hop : (group op).val = 0xF ∧ byte op = 0x29) (hop' : (group op').val = 0xD ∧ (n op').val = 5)
    (hd : (s.register (x op)).toNat < 16) :
    let t := executeAll c r s [op, op']
    t.value = .ok [.proceed, .redraw] ∧
      ∀ cx < 64, ∀ cy < 32, t.state.frame.pixel cx cy =
        (s.frame.pixel cx cy ^^ decide (Glyph.Lights (s.register (x op)).toNat
          ((s.register (x op')).toNat % 64) ((s.register (y op')).toNat % 32) cx cy)) := by
  have hfit : (s.pointed (x op)).index.toNat +
      (s.pointed (x op)).spriteHeight (y op') (n op') ≤ Memory.size := by
    have hheight : (s.pointed (x op)).spriteHeight (y op') (n op') ≤ 5 :=
      hop'.2 ▸ Nat.min_le_left _ _
    rw [State.toNat_index_pointed, Memory.size]
    omega
  intro t
  have ht : t = .done [.proceed, .redraw] _ :=
    executeAll_pair (execute_of_glyph hop) (execute_of_draw hop'.1 hfit)
  rw [ht]
  refine ⟨rfl, fun cx hcx cy hcy => ?_⟩
  refine (State.pixel_drawSprite hcx hcy).trans ?_
  rw [hop'.2, decide_eq_decide.2 (State.spriteLights_pointed_iff h hd)]
  rfl

end

/-- **Glyphs are drawn as documented until the program overwrites them.**  From power on or from a
reset on, whatever programs are loaded and whatever commands are given, the bytes below 0x050 are
the glyphs as long as no `FX33` and no `FX55` has been executed with an index register below 0x050.
In every state in which they are, `FX29` and then `DYZ5` draw the glyph of the digit in `VX` without
a fault: they invert those pixels of the picture that its five bytes light with the upper left
corner at `VY` modulo 64 and `VZ` modulo 32, what lies beyond the right and the bottom edge being
cut off.  `FX29` never faults and points the index register at five times the value of `VX`, also
if it is no digit. -/
theorem glyphs_drawn_as_documented {η : Type} :
    (∀ (m : Machine η) (cs : List (Command η)) (o : Outcome η Unit),
      (∃ config entropy keys host, m = .create config entropy keys host) ∨
        (∃ m' : Machine η, m = m'.reset.machine) →
      Command.performAll? m cs = some o →
      (∀ e ∈ Command.executions m cs,
        (group e.opcode).val = 0xF ∧ (byte e.opcode = 0x33 ∨ byte e.opcode = 0x55) →
        0x050 ≤ e.before.state.index.toNat) →
      o.machine.state.memory.window 0x000 0x050 = Glyph.sheet) ∧
      (∀ (c : Surroundings) (r : RandomSource) (s : State) (point draw : UInt16),
        s.memory.window 0x000 0x050 = Glyph.sheet →
        (group point).val = 0xF ∧ byte point = 0x29 → (group draw).val = 0xD ∧ (n draw).val = 5 →
        (s.register (x point)).toNat < 16 →
        let t := executeAll c r s [point, draw]
        t.value = .ok [.proceed, .redraw] ∧
          ∀ cx < 64, ∀ cy < 32, t.state.frame.pixel cx cy =
            (s.frame.pixel cx cy ^^ decide (Glyph.Lights (s.register (x point)).toNat
              ((s.register (x draw)).toNat % 64) ((s.register (y draw)).toNat % 32) cx cy))) ∧
      ∀ (c : Surroundings) (r : RandomSource) (s : State) (point : UInt16),
        (group point).val = 0xF ∧ byte point = 0x29 →
        let t := execute c r s point
        t.value = .ok .proceed ∧ t.state.index.toNat = 5 * (s.register (x point)).toNat := by
  refine ⟨fun m cs o hm ho hspared => ?_,
    fun c r s point draw h hpoint hdraw hd => executeAll_glyph_draw h hpoint hdraw hd,
    fun c r s point hpoint => ?_⟩
  · have hinitial : m.state = State.initial := by
      rcases hm with ⟨config, entropy, keys, host, rfl⟩ | ⟨m', rfl⟩
      · rfl
      · exact m'.state_reset
    rw [(Command.matches_of_performAll? ho).1]
    refine Action.holdsGlyphs_performAll (hinitial ▸ State.holdsGlyphs_initial) fun e he hs => ?_
    exact hspared e he (by simpa [stores, -val_group] using hs)
  · rw [execute_of_glyph hpoint]
    exact ⟨rfl, s.toNat_index_pointed (x point)⟩

/-- A program that writes the digits of 7 right behind the glyphs. -/
def digitsBehindGlyphs : List (Command Unit) :=
  [.loadProgram [0x61, 0x07, 0xA0, 0x50, 0xF1, 0x33], .step 3]

/-- The glyph of 7 is still in place after that, and is drawn from column 7 on: the left half of its
first row is lit, the right half not.  A register that holds 255 points beyond all glyphs. -/
theorem glyphs_drawn_as_documented_seven :
    ∃ o, Command.performAll? poweredOn.reset.machine digitsBehindGlyphs = some o ∧
      o.machine.state.memory.byte 0x052 = 7 ∧
      o.machine.state.memory.window 0x000 0x050 = Glyph.sheet ∧
      (let t := executeAll o.machine.surroundings o.machine.random o.machine.state [0xF129, 0xD105]
      t.value = .ok [.proceed, .redraw] ∧ t.state.frame.pixel 7 0 = true ∧
        t.state.frame.pixel 10 0 = true ∧ t.state.frame.pixel 11 0 = false) ∧
      let s := State.initial.setRegister 1 255
      (execute o.machine.surroundings o.machine.random s 0xF129).state.index.toNat = 1275 := by
  have hend : (Command.performAll? poweredOn.reset.machine digitsBehindGlyphs).map (fun o =>
      (o.machine.state.memory.byte 0x052, o.machine.state.register 1, o.machine.state.register 0,
        decide (o.machine.state.frame = Frame.blank))) = some (7, 7, 0, true) := by
    decide +kernel
  have hes : (Command.executions poweredOn.reset.machine digitsBehindGlyphs).all (fun e =>
      decide ((group e.opcode).val = 0xF ∧ (byte e.opcode = 0x33 ∨ byte e.opcode = 0x55) →
        0x050 ≤ e.before.state.index.toNat)) = true := by
    decide +kernel
  obtain ⟨o, ho, he⟩ := Option.map_eq_some_iff.1 hend
  simp only [Prod.mk.injEq, decide_eq_true_eq] at he
  obtain ⟨hbyte, hdigit, hrow, hdark⟩ := he
  obtain ⟨hholds, hdraws, hpoints⟩ := glyphs_drawn_as_documented (η := Unit)
  have hsheet := hholds poweredOn.reset.machine digitsBehindGlyphs o (.inr ⟨poweredOn, rfl⟩) ho
    fun e he => of_decide_eq_true (List.all_eq_true.1 hes e he)
  have hregisters : x 0xF129 = 1 ∧ x 0xD105 = 1 ∧ y 0xD105 = 0 := by decide
  obtain ⟨hx, hx', hy⟩ := hregisters
  have hless : (o.machine.state.register (x 0xF129)).toNat < 16 := by
    rw [hx, hdigit]
    decide
  obtain ⟨hvalue, hpixel⟩ := hdraws o.machine.surroundings o.machine.random o.machine.state 0xF129
    0xD105 hsheet (by decide) (by decide) hless
  have hfirst : ∀ cx < 64, (executeAll o.machine.surroundings o.machine.random o.machine.state
      [0xF129, 0xD105]).state.frame.pixel cx 0 = decide (Glyph.Lights 7 7 0 cx 0) := by
    intro cx hcx
    rw [hpixel cx hcx 0 (by decide), hx, hx', hy, hdigit, hrow, hdark, Frame.pixel_blank,
      Bool.false_xor]
    rfl
  refine ⟨o, ho, hbyte, hsheet, ⟨hvalue, (hfirst 7 (by decide)).trans (by decide),
    (hfirst 10 (by decide)).trans (by decide), (hfirst 11 (by decide)).trans (by decide)⟩, ?_⟩
  exact (hpoints _ _ _ 0xF129 (by decide)).2.trans (by decide)

end ChipEight
