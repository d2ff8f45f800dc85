import ChipEight.Machine.Run
import Mathlib.Data.ENat.Lattice

/-!
# Runs are beginnings of stepping

A run looks for a request to stop before each of its ticks, stepping does not.  Up to the first tick
after which a request is pending the two do the same, so a run is stepping cut off there; it differs
in its reports and in clearing the request.

* `Machine.afterTicks`, `Machine.stopTime`: the machine after some ticks, and the least number of
  ticks after which a stop is requested;
* `Outcome.calls`: what displays and buzzer are told during a call, in order;
* `Progress.runFor_eq_stepFor`: a run makes the ticks up to the first request;
* `Machine.exists_runWithin?_iff`: a run without a budget ends with what all large budgets give;
* `runFor_eq_step`: the main result.
-/

namespace ChipEight

/-! ### Calls of displays and buzzer -/

/-- Whether something that happens is a call of a display or of the buzzer. -/
def Event.isCall : Event → Bool
  | log _ => false
  | shown _ _ => true
  | buzzed _ => true

namespace Outcome

variable {η α β : Type}

/-- What displays and buzzer are told, in order. -/
def calls (o : Outcome η α) : List Event := o.events.toList.filter Event.isCall

@[simp] theorem calls_andThen (o : Outcome η α) (f : Machine η → Outcome η β) :
    (o.andThen f).calls = o.calls ++ (f o.machine).calls := by
  simp [calls]

end Outcome

/-! ### The first request to stop -/

namespace Machine

variable {η : Type}

/-- The machine after `n` ticks, whether or not it is ready. -/
def afterTicks (m : Machine η) : ℕ → Machine η
  | 0 => m
  | n + 1 => m.tick.machine.afterTicks n

/-- The least number of ticks after which a stop is requested, infinite if there is none. -/
noncomputable def stopTime (m : Machine η) : ℕ∞ :=
  ⨅ (k : ℕ) (_ : (m.afterTicks k).stopRequested = true), (k : ℕ∞)

theorem le_stopTime_iff (m : Machine η) (n : ℕ) :
    (n : ℕ∞) ≤ m.stopTime ↔ ∀ k < n, (m.afterTicks k).stopRequested = false := by
  simp only [stopTime, le_iInf_iff, Nat.cast_le]
  constructor
  · intro h k hk
    by_contra hne
    exact absurd (h k (by simpa using hne)) (Nat.not_le.2 hk)
  · intro h k hk
    by_contra hlt
    have hf := h k (Nat.lt_of_not_le hlt)
    rw [hk] at hf
    cases hf

/-- The number of ticks that a run with budget `n` makes, unless the machine halts before. -/
noncomputable def runLength (m : Machine η) (n : ℕ) : ℕ := (min (n : ℕ∞) m.stopTime).toNat

theorem coe_runLength (m : Machine η) (n : ℕ) : (m.runLength n : ℕ∞) = min (n : ℕ∞) m.stopTime :=
  ENat.natCast_toNat ((min_le_left _ _).trans_lt (ENat.natCast_lt_top n)).ne

theorem runLength_le (m : Machine η) (n : ℕ) : m.runLength n ≤ n := by
  have h : (m.runLength n : ℕ∞) ≤ n := (m.coe_runLength n).trans_le (min_le_left _ _)
  exact_mod_cast h

theorem not_stopRequested_of_lt_runLength {m : Machine η} {n k : ℕ} (h : k < m.runLength n) :
    (m.afterTicks k).stopRequested = false :=
  (m.le_stopTime_iff (m.runLength n)).1 ((m.coe_runLength n).trans_le (min_le_right _ _)) k h

theorem runLength_eq_or_stopRequested (m : Machine η) (n : ℕ) :
    m.runLength n = n ∨ (m.afterTicks (m.runLength n)).stopRequested = true := by
  by_contra hne
  push Not at hne
  obtain ⟨hn, hs⟩ := hne
  -- then no request is pending after one tick more, though that is more than the minimum
  have hlt : m.runLength n + 1 ≤ n := Nat.lt_of_le_of_ne (m.runLength_le n) hn
  have hle : ((m.runLength n + 1 : ℕ) : ℕ∞) ≤ m.stopTime := by
    refine (m.le_stopTime_iff _).2 fun k hk => ?_
    rcases Nat.lt_succ_iff_lt_or_eq.1 hk with hk | rfl
    · exact not_stopRequested_of_lt_runLength hk
    · simpa using hs
  have h : ((m.runLength n + 1 : ℕ) : ℕ∞) ≤ m.runLength n := by
    rw [m.coe_runLength n]
    exact le_min (by exact_mod_cast hlt) hle
  exact Nat.not_succ_le_self _ (by exact_mod_cast h)

end Machine

/-! ### Runs and steps tick by tick -/

namespace Progress

variable {η : Type} {p q : Progress η}

@[simp] theorem isOver_eq_true_iff :
    p.isOver = true ↔ p.halted = true ∨ p.outcome.machine.stopRequested = true := by
  simp [isOver]

/-- A run makes the ticks that stepping makes, up to the first request to stop. -/
theorem runFor_eq_stepFor {j n : ℕ} (hj : j ≤ n)
    (hlt : ∀ k < j, (p.outcome.machine.afterTicks k).stopRequested = false)
    (hend : j = n ∨ (p.outcome.machine.afterTicks j).stopRequested = true) :
    p.runFor n = p.stepFor j := by
  -- by induction on the ticks made; the tick after `p` shifts both hypotheses by one
  induction j generalizing p n with
  | zero =>
    rcases hend with rfl | hs
    · rfl
    · exact runFor_of_isOver (isOver_eq_true_iff.2 (Or.inr hs)) n
  | succ j ih =>
    obtain ⟨n, rfl⟩ : ∃ k, n = k + 1 := ⟨n - 1, by omega⟩
    have h0 : p.outcome.machine.stopRequested = false := hlt 0 (Nat.succ_pos j)
    have hm : p.advance.outcome.machine = p.outcome.machine.tick.machine := by simp
    rw [runFor_succ, stepFor_succ]
    by_cases hh : p.halted = true
    · rw [if_pos (isOver_eq_true_iff.2 (Or.inl hh)), if_pos hh]
    · rw [if_neg (by simp [hh, h0]), if_neg hh]
      refine ih (Nat.le_of_succ_le_succ hj) (fun k hk => ?_) ?_
      · rw [hm]; exact hlt (k + 1) (Nat.succ_lt_succ hk)
      · rw [hm]; exact hend.imp Nat.succ.inj id

/-- Two sequences of ticks at the same point, which may differ in what has been reported. -/
structure Agrees (p q : Progress η) : Prop where
  machine : p.outcome.machine = q.outcome.machine
  value : p.outcome.value = q.outcome.value
  calls : p.outcome.calls = q.outcome.calls
  halted : p.halted = q.halted

theorem Agrees.advance (h : Agrees p q) : Agrees p.advance q.advance where
  machine := by simp [h.machine]
  value := by simp [h.machine]
  calls := by simp [h.machine, h.calls]
  halted := by rw [Bool.eq_iff_iff, halted_advance, halted_advance, h.machine]

theorem Agrees.stepFor (h : Agrees p q) (n : ℕ) : Agrees (p.stepFor n) (q.stepFor n) := by
  induction n generalizing p q with
  | zero => exact h
  | succ n ih =>
    rw [stepFor_succ, stepFor_succ, h.halted]
    split
    · exact h
    · exact ih h.advance

theorem agrees_beginRun (m : Machine η) : Agrees m.beginRun (start m.idle) where
  machine := rfl
  value := rfl
  calls := rfl
  halted := rfl

theorem calls_finish (p : Progress η) : p.finish.calls = p.outcome.calls := by
  unfold finish
  rw [Outcome.calls_andThen]
  cases p.outcome.value <;> simp [Outcome.calls, Event.isCall]

/-! ### Runs without a budget -/

/-- As long as no tick has halted the machine, the last one has answered with a status. -/
def Sane (p : Progress η) : Prop := p.halted = false → ∃ st, p.outcome.value = .ok st

theorem Sane.advance (p : Progress η) : p.advance.Sane := by
  intro h
  have hv : p.outcome.machine.tick.value = .ok .ready := by
    by_contra hne
    rw [(halted_advance p).2 hne] at h
    cases h
  exact ⟨.ready, by simpa using hv⟩

theorem Sane.runFor (h : p.Sane) (n : ℕ) : (p.runFor n).Sane := by
  induction n generalizing p with
  | zero => exact h
  | succ n ih =>
    rw [runFor_succ]
    split
    · exact h
    · exact ih (Sane.advance p)

theorem ticks_advance {st : Status} (h : p.advance.outcome.value = .ok st) :
    p.advance.ticks = p.ticks + 1 := by
  obtain ⟨o, k, b⟩ := p
  rw [outcome_advance] at h
  simp only [advance]
  split
  · rfl
  · rfl
  · next he => rw [he] at h; cases h

theorem events_finish {st : Status} (h : p.outcome.value = .ok st) :
    p.finish.events = p.outcome.events ++ #[.log (.stopped p.ticks)] := by
  simp only [finish, Outcome.events_andThen, h]

/-- One tick more makes a different run: it reports another number of ticks or a fault. -/
theorem finish_advance_ne (hp : p.Sane) (hh : p.halted = false) : p.advance.finish ≠ p.finish := by
  intro h
  obtain ⟨st, hst⟩ := hp hh
  have hv : p.advance.outcome.value = .ok st := (congrArg Outcome.value h).trans hst
  have he := congrArg (fun o => Array.back? o.events) h
  simp [events_finish hst, events_finish hv, ticks_advance hv] at he

end Progress

namespace Machine

variable {η : Type}

/-- A run without a budget ends if and only if all large budgets lead to one and the same outcome,
which is then its own. -/
theorem exists_runWithin?_iff (m : Machine η) (o : Outcome η Result) :
    (∃ fuel, m.runWithin? fuel = some o) ↔ ∃ k, ∀ n ≥ k, m.runFor n = o := by
  constructor
  · rintro ⟨fuel, h⟩
    exact ⟨fuel, fun n hn => runFor_of_runWithin? h hn⟩
  · rintro ⟨k, h⟩
    refine ⟨k, ?_⟩
    have hk : (m.beginRun.runFor k).finish = o := h k le_rfl
    have hover : (m.beginRun.runFor k).isOver = true := by
      -- otherwise one tick more would lead to another outcome
      by_contra hne
      have hnext : (m.beginRun.runFor k).advance.finish = o := by
        have h1 := h (k + 1) (Nat.le_succ k)
        rwa [runFor, Progress.runFor_add, Progress.runFor_succ, if_neg hne,
          Progress.runFor_zero] at h1
      have hsane : (m.beginRun.runFor k).Sane :=
        Progress.Sane.runFor (fun _ => ⟨m.status, rfl⟩) k
      have hh : (m.beginRun.runFor k).halted = false := by
        simp only [Progress.isOver_eq_true_iff, not_or] at hne
        simpa using hne.1
      exact Progress.finish_advance_ne hsane hh (hnext.trans hk.symm)
    simp [runWithin?, hover, hk]

end Machine

/-- **A run is a beginning of stepping.**  A run of up to `n` ticks leaves the machine that stepping
leaves after `n` ticks or after the first one with a request to stop pending, whichever is earlier,
but for the request, which is spent; it answers the same, and displays and buzzer are called in the
same order.  A run without a budget ends with an outcome if and only if all large budgets lead to
that outcome. -/
theorem runFor_eq_step {η : Type} (m : Machine η) :
    (∀ n : ℕ,
      (m.runFor n).machine =
          { (m.step (min (n : ℕ∞) m.stopTime).toNat).machine with stopRequested := false } ∧
        (m.runFor n).value = (m.step (min (n : ℕ∞) m.stopTime).toNat).value ∧
        (m.runFor n).calls = (m.step (min (n : ℕ∞) m.stopTime).toNat).calls) ∧
      ∀ o, (∃ fuel, m.runWithin? fuel = some o) ↔ ∃ k, ∀ n ≥ k, m.runFor n = o := by
  refine ⟨fun n => ?_, m.exists_runWithin?_iff⟩
  have hrun : m.beginRun.runFor n = m.beginRun.stepFor (m.runLength n) :=
    Progress.runFor_eq_stepFor (m.runLength_le n)
      (fun k hk => Machine.not_stopRequested_of_lt_runLength hk) (m.runLength_eq_or_stopRequested n)
  have hagree := (Progress.agrees_beginRun m).stepFor (m.runLength n)
  rw [← hrun] at hagree
  refine ⟨?_, hagree.value, ?_⟩
  · exact congrArg (fun m : Machine η => { m with stopRequested := false }) hagree.machine
  · rw [Machine.runFor, Progress.calls_finish, hagree.calls]
    rfl

end ChipEight
