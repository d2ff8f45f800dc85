import ChipEight.Keypad
import ChipEight.Proofs.Execution
import ChipEight.Proofs.Recognition
import Mathlib.Data.List.Induction

/-!
# Keys report their last event

A keypad answers for each key with the last event of that key, whatever happened to the others; an
event with the code of no key changes nothing.  The key instructions skip by that answer, one if
the key is pressed and the other if it is not, and take the code as it is: a register that holds
the code of no key finds it released.

* `KeyEvent`, `Keypad.handle`, `Keypad.afterEvents`: what can be done to a keypad, and its history;
* `KeyEvent.last?`: the last event of a key;
* `Keypad.isPressed_afterEvents`: a key is as its last event left it;
* `Keypad.handle_of_ignores`, `Keypad.handle_comm`: codes of no key, and events of different keys;
* `execute_of_keyPressed`, `execute_of_keyReleased`: the two key instructions;
* `keys_report_last_event`: the main result.
-/

namespace ChipEight

open Opcode

/-! ### Histories of a keypad -/

/-- Something done to a keypad. -/
inductive KeyEvent
  | press (code : UInt8)
  | release (code : UInt8)
  | set (code : UInt8) (on : Bool)
  deriving DecidableEq, Repr

namespace KeyEvent

/-- The code that an event names. -/
def code : KeyEvent → UInt8
  | press k => k
  | release k => k
  | set k _ => k

/-- Whether an event presses its key. -/
def presses : KeyEvent → Bool
  | press _ => true
  | release _ => false
  | set _ on => on

/-- The last of some events that names the code `k`. -/
def last? (k : UInt8) (es : List KeyEvent) : Option KeyEvent :=
  (es.filter fun e => e.code == k).getLast?

theorem last?_concat (k : UInt8) (es : List KeyEvent) (e : KeyEvent) :
    last? k (es ++ [e]) = if e.code = k then some e else last? k es := by
  by_cases h : e.code = k <;> simp [last?, h]

end KeyEvent

namespace Keypad

/-- The keypad after an event. -/
def handle (p : Keypad) : KeyEvent → Keypad
  | .press k => p.press k
  | .release k => p.release k
  | .set k on => p.set k on

/-- The keypad after some events, one after another. -/
def afterEvents (p : Keypad) (es : List KeyEvent) : Keypad := es.foldl handle p

variable {p : Keypad} {d e : KeyEvent}

theorem handle_eq_set (p : Keypad) (e : KeyEvent) : p.handle e = p.set e.code e.presses := by
  cases e with
  | _ => rfl

theorem isPressed_handle (p : Keypad) (e : KeyEvent) (k : UInt8) :
    (p.handle e).isPressed k =
      if k = e.code ∧ e.code.toNat < Keypad.size then e.presses else p.isPressed k := by
  rw [handle_eq_set, isPressed_set]

/-- A key is as its last event left it; a key without events is as it was, and the code of no key
reads as released. -/
theorem isPressed_afterEvents (p : Keypad) (es : List KeyEvent) (k : UInt8) :
    (p.afterEvents es).isPressed k =
      (decide (k.toNat < Keypad.size) &&
        ((KeyEvent.last? k es).map KeyEvent.presses).getD (p.isPressed k)) := by
  -- the last event decides, so the induction takes events away from the end
  induction es using List.reverseRecOn with
  | nil =>
    by_cases hk : k.toNat < Keypad.size
    · simp [afterEvents, KeyEvent.last?, hk]
    · have hnone : p.isPressed k = false := p.isPressed_of_ignores (by simpa [ignores] using hk)
      simp [afterEvents, KeyEvent.last?, hnone]
  | append_singleton es e ih =>
    have hstep : p.afterEvents (es ++ [e]) = (p.afterEvents es).handle e := by
      simp [afterEvents, List.foldl_append]
    rw [hstep, isPressed_handle, ih, KeyEvent.last?_concat]
    by_cases hcode : e.code = k
    · subst hcode
      by_cases hk : e.code.toNat < Keypad.size <;> simp [hk]
    · simp [hcode, Ne.symm hcode]

/-- An event with the code of no key changes nothing. -/
theorem handle_of_ignores (h : ignores e.code = true) : p.handle e = p := by
  have hsize : ¬ e.code.toNat < Keypad.size := by simpa [ignores] using h
  ext k
  rw [isPressed_handle, if_neg fun hk => hsize hk.2]

/-- Events of different keys may change places. -/
theorem handle_comm (h : d.code ≠ e.code) : (p.handle d).handle e = (p.handle e).handle d := by
  ext k
  simp only [isPressed_handle]
  by_cases hd : k = d.code
  · simp [hd, h]
  · simp [hd]

end Keypad

/-! ### The key instructions -/

theorem State.skipWhen_eq (s : State) (on : Bool) :
    s.skipWhen on = { s with pc := if on then s.pc + 4 else s.pc + 2 } := by
  have htwice : s.pc + 2 + 2 = s.pc + 4 := by
    rw [UInt16.add_assoc]
    rfl
  cases on with
  | false => rfl
  | true =>
    show { s with pc := s.pc + 2 + 2 } = { s with pc := s.pc + 4 }
    rw [htwice]

section Execution

variable {c : Surroundings} {r : RandomSource} {s : State} {op : UInt16}

/-- The word `EX9E` skips if the key is pressed. -/
theorem execute_of_keyPressed (hg : (group op).val = 0xE) (hb : byte op = 0x9E) :
    execute c r s op =
      ⟨.done .proceed
        { s with pc := if c.keys (c.keyCode s (x op)) then s.pc + 4 else s.pc + 2 }, r⟩ := by
  have hd : Instruction.decode? op = some (.skip (.keyPressed (x op))) :=
    Instruction.decode?_eq_some_iff.2 ⟨hg, hb, rfl⟩
  rw [execute_of_decode?_eq_some hd, Instruction.execute, State.skipWhen_eq]
  rfl

/-- The word `EXA1` skips if the key is released. -/
theorem execute_of_keyReleased (hg : (group op).val = 0xE) (hb : byte op = 0xA1) :
    execute c r s op =
      ⟨.done .proceed
        { s with pc := if c.keys (c.keyCode s (x op)) then s.pc + 2 else s.pc + 4 }, r⟩ := by
  have hd : Instruction.decode? op = some (.skip (.keyReleased (x op))) :=
    Instruction.decode?_eq_some_iff.2 ⟨hg, hb, rfl⟩
  have hholds : (Condition.keyReleased (x op)).holds c s = !c.keys (c.keyCode s (x op)) := rfl
  rw [execute_of_decode?_eq_some hd, Instruction.execute, State.skipWhen_eq, hholds]
  cases c.keys (c.keyCode s (x op)) with
  | _ => rfl

end Execution

/-- **Keys report their last event.**  Let a keypad start with all keys released and be told any
events, with any codes.  A code reads as pressed if and only if it is the code of a key and the last
event of that key pressed it.  On any keypad, an event with a code of 16 or more changes no answer,
and events of different codes may change places.  On any keypad and in any state, `EX9E` moves the
program counter by four if the key is pressed and by two if not, `EXA1` the other way round, and
nothing else changes; so exactly one of the two skips.  If the key is taken from a register that
holds 16 or more, it is always `EXA1` that does. -/
theorem keys_report_last_event :
    (∀ (es : List KeyEvent) (k : UInt8), (Keypad.released.afterEvents es).isPressed k = true ↔
      k.toNat < 16 ∧ ∃ e, KeyEvent.last? k es = some e ∧ e.presses = true) ∧
    (∀ (p : Keypad) (e : KeyEvent), 16 ≤ e.code.toNat →
      ∀ k, (p.handle e).isPressed k = p.isPressed k) ∧
    (∀ (p : Keypad) (d e : KeyEvent), d.code ≠ e.code →
      (p.handle d).handle e = (p.handle e).handle d) ∧
    ∀ (p : Keypad) (d : Dialect) (r : RandomSource) (s : State) (op op' : UInt16),
      (group op).val = 0xE → byte op = 0x9E → (group op').val = 0xE → byte op' = 0xA1 →
      x op' = x op →
      let c : UInt8 := match d.keySelector with
        | .digit => .ofNat (x op).val
        | .register => s.register (x op)
      let o := execute ⟨d, p.isPressed⟩ r s op
      let o' := execute ⟨d, p.isPressed⟩ r s op'
      o = ⟨.done .proceed { s with pc := if p.isPressed c then s.pc + 4 else s.pc + 2 }, r⟩ ∧
        o' = ⟨.done .proceed { s with pc := if p.isPressed c then s.pc + 2 else s.pc + 4 }, r⟩ ∧
        (o.state.pc = s.pc + 4 ↔ o'.state.pc ≠ s.pc + 4) ∧
        (d.keySelector = .register → 16 ≤ (s.register (x op)).toNat →
          o.state.pc = s.pc + 2 ∧ o'.state.pc = s.pc + 4) := by
  refine ⟨fun es k => ?_, fun p e he k => ?_, fun p d e h => Keypad.handle_comm h, ?_⟩
  · rw [Keypad.isPressed_afterEvents, Keypad.isPressed_released, Bool.and_eq_true,
      decide_eq_true_iff]
    cases KeyEvent.last? k es with
    | none => simp
    | some e => simp [Keypad.size]
  · rw [Keypad.handle_of_ignores (decide_eq_true he)]
  · intro p d r s op op' hg hb hg' hb' hx c o o'
    have ho : o = ⟨.done .proceed
        { s with pc := if p.isPressed c then s.pc + 4 else s.pc + 2 }, r⟩ :=
      execute_of_keyPressed hg hb
    have ho' : o' = ⟨.done .proceed
        { s with pc := if p.isPressed c then s.pc + 2 else s.pc + 4 }, r⟩ := by
      have h := execute_of_keyReleased (c := ⟨d, p.isPressed⟩) (r := r) (s := s) hg' hb'
      rw [hx] at h
      exact h
    have hne : s.pc + 2 ≠ s.pc + 4 := fun h => absurd (UInt16.add_right_inj s.pc |>.1 h) (by decide)
    refine ⟨ho, ho', ?_, fun hselector hv => ?_⟩
    · rw [ho, ho']
      cases p.isPressed c with
      | false => simp [Attempt.done, hne]
      | true => simp [Attempt.done, hne]
    · have hc : c = s.register (x op) := by
        simp only [c, hselector]
      have hreleased : p.isPressed c = false :=
        p.isPressed_of_ignores (hc ▸ decide_eq_true hv)
      rw [ho, ho', hreleased]
      exact ⟨rfl, rfl⟩

/-- Events of key 5, and of the code 0x15, which names no key. -/
def keyEvents : List KeyEvent := [.press 0x5, .release 0x15, .set 0x5 false, .set 0x15 true]

/-- Key 5 was released last; the code 0x15, held in V5, reads as released although it was pressed
last, and is not taken for key 5. -/
theorem keys_report_last_event_beyond :
    let p := Keypad.released.afterEvents (keyEvents ++ [.press 0x5])
    let s := State.initial.setRegister 5 0x15
    let d : Dialect := { keySelector := .register }
    (Keypad.released.afterEvents keyEvents).isPressed 0x5 = false ∧
      p.isPressed 0x5 = true ∧ p.isPressed 0x15 = false ∧
      (p.handle (.set 0x15 false)).isPressed 0x5 = true ∧
      (p.handle (.press 0x6)).handle (.release 0x5) =
        (p.handle (.release 0x5)).handle (.press 0x6) ∧
      (execute ⟨d, p.isPressed⟩ (.ofList []) s 0xE59E).state.pc = s.pc + 2 ∧
      (execute ⟨d, p.isPressed⟩ (.ofList []) s 0xE5A1).state.pc = s.pc + 4 ∧
      (execute ⟨{}, p.isPressed⟩ (.ofList []) s 0xE59E).state.pc = s.pc + 4 := by
  intro p s d
  obtain ⟨hlast, hbeyond, hcomm, hskip⟩ := keys_report_last_event
  have hfive : p.isPressed 0x5 = true := (hlast _ _).2 ⟨by decide, .press 0x5, rfl, rfl⟩
  have hregister := (hskip p d (.ofList []) s 0xE59E 0xE5A1 rfl rfl rfl rfl rfl).2.2.2 rfl
    (by decide)
  have hdigit := (hskip p {} (.ofList []) s 0xE59E 0xE5A1 rfl rfl rfl rfl rfl).1
  refine ⟨?_, hfive, ?_, ?_, hcomm p _ _ (by decide), hregister.1, hregister.2, ?_⟩
  · rw [← Bool.not_eq_true, hlast]
    rintro ⟨-, e, he, hpress⟩
    obtain rfl : .set 0x5 false = e := Option.some.inj he
    cases hpress
  · rw [← Bool.not_eq_true, hlast]
    exact fun h => absurd h.1 (by decide)
  · rw [hbeyond p _ (by decide), hfive]
  · rw [hdigit]
    show (if p.isPressed 0x5 then s.pc + 4 else s.pc + 2) = s.pc + 4
    rw [hfive]
    rfl

end ChipEight
