import ChipEight.Proofs.Actions
import ChipEight.Proofs.Tick

/-!
# Properties that no command breaks

What can be reached is what a list of commands leads to.  A property that holds at power on and
survives a tick, a reset, a load and whatever the host does holds of everything reachable.

* `Machine.Stable`: the property survives each single thing that can happen to a machine;
* `Machine.Stable.performAll`, `Machine.Stable.performAll?`: hence every list of actions or
  commands;
* `Machine.stable_of_state`: properties of the state under the bound on pending calls.
-/

namespace ChipEight

namespace Machine

variable {η : Type}

/-- A property that survives whatever can happen to a machine. -/
structure Stable (P : Machine η → Prop) : Prop where
  tick : ∀ m, P m → P m.tick.machine
  reset : ∀ m, P m → P { m with state := State.initial, status := .ready }
  loadProgram : ∀ m rom, P m → P (m.loadProgram rom).machine
  respond : ∀ m r, P m → P (m.respond r)
  setStop : ∀ m b, P m → P { m with stopRequested := b }
  addDisplay : ∀ m d, P m → P (m.addDisplay d)
  setBuzzer : ∀ m b, P m → P (m.setBuzzer b)

namespace Stable

variable {P : Machine η → Prop} {m : Machine η}

theorem afterTicks (hP : Stable P) (h : P m) (n : ℕ) : P (m.afterTicks n) := by
  induction n generalizing m with
  | zero => exact h
  | succ n ih => exact ih (hP.tick m h)

theorem perform (hP : Stable P) (h : P m) (a : Action η) : P (a.perform m).machine := by
  cases a with
  | tick => exact hP.tick m h
  | reset =>
    obtain ⟨r, hr⟩ := m.machine_reset
    exact hr ▸ hP.respond _ r (hP.reset m h)
  | loadProgram rom => exact hP.loadProgram m rom h
  | setStop on => exact hP.setStop m on h
  | addDisplay d => exact hP.addDisplay m d h
  | setBuzzer b => exact hP.setBuzzer m b h
  | updateHost change => exact hP.respond m _ h

theorem performAll (hP : Stable P) (h : P m) (as : List (Action η)) :
    P (Action.performAll m as).machine :=
  Action.performAll_preserves (fun a _ _ h => hP.perform h a) h

theorem performAll? (hP : Stable P) (h : P m) {cs : List (Command η)} {o : Outcome η Unit}
    (ho : Command.performAll? m cs = some o) : P o.machine := by
  rw [(Command.matches_of_performAll? ho).1]
  exact hP.performAll h _

end Stable

/-- A property of the state under the bound on pending calls survives everything if it holds at
power on and survives every accepted instruction with the count down after it, and every write of a
program. -/
theorem stable_of_state {limit : Option Nat} {Q : State → Prop} (initial : Q State.initial)
    (after : ∀ c r s i, c.dialect.stackLimit = limit → s.upcoming limit = .ok i → Q s →
      Q (i.after c r s).countDown)
    (store : ∀ s rom, Q s → Q { s with memory := s.memory.store Program.start rom }) :
    Stable fun m : Machine η => m.config.dialect.stackLimit = limit ∧ Q m.state where
  tick m h := by
    obtain ⟨rfl, hQ⟩ := h
    rcases m.machine_tick_cases with ⟨-, hm⟩ | ⟨e, -, -, hm⟩ | ⟨i, r, -, hu, hm⟩
    · rw [hm]; exact ⟨rfl, hQ⟩
    · rw [hm]; exact ⟨rfl, hQ⟩
    · rw [hm]; exact ⟨rfl, after _ _ _ _ rfl hu hQ⟩
  reset m h := ⟨h.1, initial⟩
  loadProgram m rom h := by
    by_cases hle : Program.start + rom.length ≤ Memory.size
    · rw [m.machine_loadProgram_of_le hle]; exact ⟨h.1, store _ _ h.2⟩
    · rw [m.machine_loadProgram_of_lt (Nat.lt_of_not_le hle)]; exact h
  respond m r h := h
  setStop m b h := h
  addDisplay m d h := h
  setBuzzer m b h := h

end Machine

end ChipEight
