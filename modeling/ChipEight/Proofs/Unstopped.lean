import ChipEight.Proofs.Stepping

/-!
# Runs that nobody stops

If no callback ever requests a stop, a run of a ready machine makes its ticks one after the other
until the machine has halted, and answers with the status that they leave.  A status other than
ready was left by one tick, and is kept from then on.

* `Machine.afterTicks_of_le`: after it has halted, a machine stays as it is;
* `Machine.exists_last_tick`: the tick that halts a machine;
* `Machine.status_tick_eq_exited_iff`: the words that let a machine exit;
* `Progress.Faithful`: a sequence of ticks whose mark and whose answer tell the status;
* `Machine.Unstopped`, with its runs: `Machine.Unstopped.machine_runFor`,
  `Machine.Unstopped.value_runFor`, `Machine.Unstopped.runWithin?_eq`.
-/

namespace ChipEight

open Opcode

/-! ### The tick that halts a machine -/

namespace Machine

variable {η : Type} {m : Machine η} {a b : ℕ}

theorem afterTicks_of_not_ready (h : m.status ≠ .ready) (n : ℕ) : m.afterTicks n = m := by
  induction n with
  | zero => rfl
  | succ n ih => rw [afterTicks, tick_of_not_ready h]; exact ih

/-- After it has halted, a machine stays as it is. -/
theorem afterTicks_of_le (h : (m.afterTicks a).status ≠ .ready) (hab : a ≤ b) :
    m.afterTicks b = m.afterTicks a := by
  obtain ⟨d, rfl⟩ := Nat.exists_eq_add_of_le hab
  rw [afterTicks_add, afterTicks_of_not_ready h]

theorem status_afterTicks_of_le {st : Status} (h : (m.afterTicks a).status = st)
    (hst : st ≠ .ready) (hab : a ≤ b) : (m.afterTicks b).status = st := by
  rw [afterTicks_of_le (h ▸ hst) hab, h]

/-- A ready machine that has halted was halted by one of its ticks. -/
theorem exists_last_tick (hs : m.status = .ready) (hb : (m.afterTicks b).status ≠ .ready) :
    ∃ k < b, (m.afterTicks k).status = .ready ∧ m.afterTicks b = m.afterTicks (k + 1) := by
  induction b with
  | zero => exact absurd hs hb
  | succ b ih =>
    by_cases h : (m.afterTicks b).status = .ready
    · exact ⟨b, b.lt_succ_self, h, rfl⟩
    · obtain ⟨k, hk, hready, hlast⟩ := ih h
      exact ⟨k, Nat.lt_succ_of_lt hk, hready, (afterTicks_of_le h b.le_succ).trans hlast⟩

/-- A ready machine exits on the words `0?1N`. -/
theorem status_tick_eq_exited_iff (hs : m.status = .ready) {code : Fin 16} :
    m.tick.machine.status = .exited code ↔
      ∃ op, m.executed? = some op ∧ (group op).val = 0x0 ∧ (y op).val = 0x1 ∧ n op = code := by
  rcases m.machine_tick_cases with ⟨hne, -⟩ | ⟨e, -, hu, hm⟩ | ⟨i, r, -, hu, hm⟩
  · exact absurd hs hne
  · rw [hm, executed?_of_upcoming_error hu]
    simp
  · obtain ⟨op, hf, hd, -⟩ := State.upcoming_eq_ok_iff.1 hu
    have hstatus : m.tick.machine.status = i.effect.status := by rw [hm]; rfl
    rw [hstatus, executed?_of_upcoming_ok hs hf hu]
    constructor
    · intro h
      obtain rfl : i = .exit code := by
        cases i with
        | exit code' => exact congrArg Instruction.exit (Status.exited.inj h)
        | _ => cases h
      obtain ⟨hg, hy, rfl⟩ := Instruction.decode?_eq_some_iff.1 hd
      exact ⟨op, rfl, hg, hy, rfl⟩
    · rintro ⟨_, ⟨⟩, hg, hy, rfl⟩
      have hexit : Instruction.decode? op = some (.exit (n op)) :=
        Instruction.decode?_eq_some_iff.2 ⟨hg, hy, rfl⟩
      obtain rfl := Option.some.inj (hd.symm.trans hexit)
      rfl

/-- A tick that meets a fault leaves it as the status, and so does one after it. -/
theorem status_tick_eq_faulted_iff {e : Fault} :
    m.tick.machine.status = .faulted e ↔ m.tick.value = .error e := by
  rw [value_tick, Status.answer_eq_error_iff]

end Machine

/-! ### Runs -/

namespace Progress

variable {η : Type} {p : Progress η}

/-- A sequence of ticks that is marked as halted if and only if the machine is not ready, and that
answers with the status. -/
structure Faithful (p : Progress η) : Prop where
  halted : p.halted = true ↔ p.outcome.machine.status ≠ .ready
  value : p.outcome.value = p.outcome.machine.status.answer

theorem faithful_advance (p : Progress η) : p.advance.Faithful where
  halted := by
    rw [halted_advance, outcome_advance, Outcome.machine_andThen, Machine.value_tick]
    cases p.outcome.machine.tick.machine.status with
    | ready => simp [Status.answer]
    | exited code => simp [Status.answer]
    | faulted e => simp [Status.answer]
  value := by
    rw [outcome_advance, Outcome.value_andThen, Outcome.machine_andThen, Machine.value_tick]

theorem Faithful.runFor (h : p.Faithful) (n : ℕ) : (p.runFor n).Faithful := by
  induction n generalizing p with
  | zero => exact h
  | succ n ih =>
    rw [runFor_succ]
    split
    · exact h
    · exact ih (faithful_advance p)

end Progress

namespace Machine

variable {η : Type} {m : Machine η}

/-- No stop is requested, whatever number of ticks has been made. -/
def Unstopped (m : Machine η) : Prop := ∀ k, (m.afterTicks k).stopRequested = false

theorem faithful_beginRun (hs : m.status = .ready) : m.beginRun.Faithful where
  halted := iff_of_false Bool.false_ne_true (not_not.2 hs)
  value := by
    show Except.ok m.status = m.status.answer
    rw [hs]
    rfl

namespace Unstopped

theorem tick (h : m.Unstopped) : m.tick.machine.Unstopped := fun k => h (k + 1)

/-- The ticks of a run, of which those are left out that would do nothing. -/
theorem machine_progress (n : ℕ) {p : Progress η} (h : p.outcome.machine.Unstopped)
    (hp : p.Faithful) : (p.runFor n).outcome.machine = p.outcome.machine.afterTicks n := by
  induction n generalizing p with
  | zero => rfl
  | succ n ih =>
    rw [Progress.runFor_succ]
    by_cases hover : p.isOver = true
    · rw [if_pos hover]
      rcases Progress.isOver_eq_true_iff.1 hover with hhalted | hstop
      · rw [afterTicks_of_not_ready (hp.halted.1 hhalted)]
      · rw [show p.outcome.machine.stopRequested = false from h 0] at hstop
        cases hstop
    · have hm : p.advance.outcome.machine = p.outcome.machine.tick.machine := by
        rw [Progress.outcome_advance, Outcome.machine_andThen]
      rw [if_neg hover, ih (by rw [hm]; exact h.tick) (Progress.faithful_advance p), hm]
      rfl

theorem machine_beginRun (h : m.Unstopped) (hs : m.status = .ready) (n : ℕ) :
    (m.beginRun.runFor n).outcome.machine = m.afterTicks n :=
  machine_progress n h (faithful_beginRun hs)

theorem machine_runFor (h : m.Unstopped) (hs : m.status = .ready) (n : ℕ) :
    (m.runFor n).machine = m.afterTicks n := by
  show { (m.beginRun.runFor n).outcome.machine with stopRequested := false } = _
  rw [h.machine_beginRun hs, ← h n]

theorem value_runFor (h : m.Unstopped) (hs : m.status = .ready) (n : ℕ) :
    (m.runFor n).value = (m.afterTicks n).status.answer := by
  show (m.beginRun.runFor n).outcome.value = _
  rw [((faithful_beginRun hs).runFor n).value, h.machine_beginRun hs]

/-- A run without a budget is over once the machine has halted. -/
theorem runWithin?_eq (h : m.Unstopped) (hs : m.status = .ready) (fuel : ℕ) :
    m.runWithin? fuel =
      if (m.afterTicks fuel).status = .ready then none else some (m.runFor fuel) := by
  have hover : (m.beginRun.runFor fuel).isOver = true ↔ (m.afterTicks fuel).status ≠ .ready := by
    rw [Progress.isOver_eq_true_iff, ((faithful_beginRun hs).runFor fuel).halted,
      h.machine_beginRun hs, h fuel]
    simp
  show (if (m.beginRun.runFor fuel).isOver = true then some (m.runFor fuel) else none) = _
  by_cases hr : (m.afterTicks fuel).status = .ready
  · rw [if_pos hr, if_neg fun ho => hover.1 ho hr]
  · rw [if_neg hr, if_pos (hover.2 hr)]

end Unstopped

end Machine

end ChipEight
