import ChipEight.Proofs.Buzzer
import ChipEight.Proofs.Surroundings

/-!
# Where dialects differ

Apart from the limit on pending calls a dialect chooses two things: the register that a shift reads
and the place where a key instruction finds the code of its key.  Where the two registers of a shift
hold the same value, and both codes of a key instruction get the same answer, the choice cannot be
noticed.

* `Dialect.shifted_self`, `Surroundings.keys_keyCode`: the choices that come to the same;
* `Machine.Indifferent`: the next word does not depend on the dialect;
* `Machine.findsSame_of_indifferent`: such a word finds the same in every dialect;
* `dialect_unnoticed`: the main result.
-/

namespace ChipEight

open Opcode

/-- A shift of two registers with one value starts from that value. -/
@[simp] theorem Dialect.shifted_self (d : Dialect) (v : UInt8) : d.shifted v v = v := by
  unfold shifted
  cases d.shiftOperand <;> rfl

/-- If the digit and the register get the same answer, the register's answer is the one. -/
theorem Surroundings.keys_keyCode {c : Surroundings} {s : State} {v : Register}
    (h : c.keys (.ofNat v.val) = c.keys (s.register v)) :
    c.keys (c.keyCode s v) = c.keys (s.register v) := by
  unfold keyCode
  cases c.dialect.keySelector with
  | digit => exact h
  | register => rfl

namespace Machine

variable {η η' : Type} {m : Machine η} {n : Machine η'}

/-- The next word is no shift of two registers with different values, and it does not ask for a key
where the digit and the register get different answers. -/
def Indifferent (m : Machine η) : Prop :=
  ∀ op ∈ m.executed?,
    (shifts op = true → m.state.register (x op) = m.state.register (y op)) ∧
    (asksKey op = true →
      m.keys m.host (.ofNat (x op).val) = m.keys m.host (m.state.register (x op)))

/-- A word that does not depend on the dialect finds the same in all of them, given the same keys
and the same random source. -/
theorem findsSame_of_indifferent (hkeys : n.surroundings.keys = m.surroundings.keys)
    (hrandom : n.random = m.random) (h : m.Indifferent) : m.FindsSame n := by
  intro op hop i hd
  obtain ⟨hshift, hkey⟩ := h op hop
  rw [Instruction.finding_of_decode? hd, Instruction.finding_of_decode? hd, hrandom]
  by_cases hk : asksKey op = true
  · have hm : m.surroundings.keys (.ofNat (x op).val) =
        m.surroundings.keys (m.state.register (x op)) := hkey hk
    have hn : n.surroundings.keys (.ofNat (x op).val) =
        n.surroundings.keys (m.state.register (x op)) := by rw [hkeys, hm]
    rw [if_pos hk, if_pos hk, Surroundings.keys_keyCode hm, Surroundings.keys_keyCode hn, hkeys]
  · rw [if_neg hk, if_neg hk]
    by_cases hs : shifts op = true
    · rw [if_pos hs, if_pos hs, hshift hs, Dialect.shifted_self, Dialect.shifted_self]
    · rw [if_neg hs, if_neg hs]

end Machine

/-- **Dialects differ only in shifts and keys.**  Let two machines with the same state, status,
random source and limit on pending calls make `k` ticks each, with interventions in front of each
tick, and let the same keys be pressed on both in each tick; their displays, as many on one as on
the other, and their buzzers may answer differently.  If the words that the first one executes are
neither shifts of registers with different values nor ask for a key where the digit and the register
get different answers, then each tick answers the same on both machines, calls displays and buzzer
in the same way and leaves the same state and status, whatever their dialects choose. -/
theorem dialect_unnoticed {η η' : Type} (m : Machine η) (n : Machine η')
    (hstate : n.state = m.state) (hstatus : n.status = m.status) (hrandom : n.random = m.random)
    (hlimit : n.config.dialect.stackLimit = m.config.dialect.stackLimit)
    (w : ℕ → Intervention η) (w' : ℕ → Intervention η') (k : ℕ) :
    let M := m.beforeTick w
    let N := n.beforeTick w'
    (∀ j < k, (N j).keys (N j).host = (M j).keys (M j).host ∧
      (N j).displays.length = (M j).displays.length ∧
      (N j).buzzer.isSome = (M j).buzzer.isSome) →
    (∀ j < k, (M j).Indifferent) →
    ∀ j < k, (M j).TicksAlike (N j) ∧ (N j).tick.calls = (M j).tick.calls := by
  intro M N hoften hindifferent j hj
  have hsame := Machine.beforeTick_related w w'
    (R := fun m n => m.Twins n ∧ n.random = m.random)
    (fun v v' m n h => ⟨h.1.intervene v v', by rw [v.random_apply, v'.random_apply, h.2]⟩)
    ⟨⟨hstate, hstatus, hlimit⟩, hrandom⟩
    fun j hj h => ⟨h.1.tick (Machine.findsSame_of_indifferent (hoften j hj).1 h.2
      (hindifferent j hj)), h.1.random_tick h.2⟩
  obtain ⟨⟨hbefore, -⟩, hafter, -⟩ := hsame j hj
  obtain ⟨-, hdisplays, hbuzzer⟩ := hoften j hj
  exact ⟨hafter.ticksAlike, hbefore.calls_tick hafter hdisplays hbuzzer⟩

/-- A program that shifts a register by itself and another one whose value is the same, clears the
picture, and asks for the keys 1 and 2, the latter while its register holds 130. -/
def indifferentProgram : List UInt8 :=
  [0x61, 0x82, 0x81, 0x1E, 0x80, 0x26, 0x00, 0xE0, 0x61, 0x01, 0xE1, 0xA1, 0x62, 0x82, 0xE2, 0x9E]

/-- A machine with this program, on which the key 1 is pressed, with a display that may request a
stop and a quiet buzzer. -/
def dialectMachine (d : Dialect) (stop : Bool) : Machine Unit :=
  (((Machine.create { dialect := d } ChaCha.zeroKey (fun _ k => k == 1) ()).addDisplay
    fun _ _ => ⟨(), stop, []⟩).setBuzzer quietBuzzer |>.loadProgram indifferentProgram).machine

instance {η : Type} (m : Machine η) : Decidable m.Indifferent :=
  Option.decidableForallMem m.executed?

/-- Both choices are different, and eight ticks go the same way. -/
theorem dialect_unnoticed_eight :
    let M := (dialectMachine {} false).beforeTick fun _ => .none
    let N := (dialectMachine ⟨.x, .register, some 16⟩ true).beforeTick fun _ => .none
    (∀ j < 8, (N j).keys (N j).host = (M j).keys (M j).host ∧
        (N j).displays.length = (M j).displays.length ∧
        (N j).buzzer.isSome = (M j).buzzer.isSome) ∧
      (∀ j < 8, (M j).Indifferent) ∧
      (M 7).TicksAlike (N 7) ∧ (N 3).tick.calls = (M 3).tick.calls := by
  intro M N
  have hoften : ∀ j < 8, (N j).keys (N j).host = (M j).keys (M j).host ∧
      (N j).displays.length = (M j).displays.length ∧
      (N j).buzzer.isSome = (M j).buzzer.isSome := by
    intro j _
    simp only [M, N, Machine.beforeTick_none]
    have hM := (dialectMachine {} false).builtAlike_afterTicks j
    have hN := (dialectMachine ⟨.x, .register, some 16⟩ true).builtAlike_afterTicks j
    rw [hM.keys, hN.keys, hM.displays, hN.displays, hM.buzzer, hN.buzzer]
    exact ⟨rfl, rfl, rfl⟩
  have hindifferent : ∀ j < 8, (M j).Indifferent := by
    decide +kernel
  have hlaw := dialect_unnoticed (dialectMachine {} false)
    (dialectMachine ⟨.x, .register, some 16⟩ true) rfl rfl rfl rfl
    (fun _ => .none) (fun _ => .none) 8 hoften hindifferent
  exact ⟨hoften, hindifferent, (hlaw 7 (by decide)).1, (hlaw 3 (by decide)).2⟩

end ChipEight
