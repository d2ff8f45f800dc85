import ChipEight.Machine.Tick

/-!
# Steps and runs

Several ticks in a row.  Stepping makes a given number of ticks and pays no heed to requests to
stop; a run looks for such a request before every tick, and ends by clearing it.  Both end early
when the machine is not ready any more.

* `Progress`: the ticks made so far, `Progress.advance`: one more;
* `Machine.step m n`: up to `n` ticks;
* `Machine.runFor m n`: a run of up to `n` ticks;
* `Machine.runWithin? m fuel`: a run without a budget, or `none` if it needs more ticks than
  `fuel`.
-/

namespace ChipEight

/-- A sequence of ticks under way. -/
structure Progress (η : Type) where
  /-- The machine now, what has happened, and what the last tick returned. -/
  outcome : Outcome η Machine.Result
  /-- The number of ticks that returned a status. -/
  ticks : Nat
  /-- Whether the last tick found or left the machine not ready. -/
  halted : Bool

namespace Progress

variable {η : Type}

/-- No tick has been made. -/
def start (o : Outcome η Unit) : Progress η := ⟨o.andThen Machine.askStatus, 0, false⟩

/-- One tick more. -/
def advance (p : Progress η) : Progress η :=
  match p with
  | ⟨o, k, _⟩ =>
      let o := o.andThen Machine.tick
      match o.value with
      | .ok .ready => ⟨o, k + 1, false⟩
      | .ok _ => ⟨o, k + 1, true⟩
      | .error _ => ⟨o, k, true⟩

/-- Up to `n` ticks more, as long as the machine is ready. -/
def stepFor (p : Progress η) : Nat → Progress η
  | 0 => p
  | n + 1 => if p.halted then p else p.advance.stepFor n

/-- Whether a run makes no further tick. -/
def isOver (p : Progress η) : Bool := p.halted || p.outcome.machine.stopRequested

/-- Up to `n` ticks more, as long as the machine is ready and no stop is requested. -/
def runFor (p : Progress η) : Nat → Progress η
  | 0 => p
  | n + 1 => if p.isOver then p else p.advance.runFor n

/-- The end of a run: the request to stop is spent, and unless a fault ended the run the number of
its ticks is reported. -/
def finish (p : Progress η) : Outcome η Machine.Result :=
  p.outcome.andThen fun m =>
    ⟨{ m with stopRequested := false },
      match p.outcome.value with
      | .ok _ => #[.log (.stopped p.ticks)]
      | .error _ => #[],
      p.outcome.value⟩

/-! ### Counting ticks -/

@[simp] theorem outcome_advance (p : Progress η) :
    p.advance.outcome = p.outcome.andThen Machine.tick := by
  obtain ⟨o, k, b⟩ := p
  simp only [advance]
  split <;> rfl

theorem halted_advance (p : Progress η) :
    p.advance.halted = true ↔ p.outcome.machine.tick.value ≠ .ok .ready := by
  obtain ⟨o, k, b⟩ := p
  simp only [advance]
  split
  · next h =>
    rw [Outcome.value_andThen] at h
    simp [h]
  · next a hne h =>
    rw [Outcome.value_andThen] at h
    simpa [h] using hne
  · next h =>
    rw [Outcome.value_andThen] at h
    simp [h]

@[simp] theorem stepFor_zero (p : Progress η) : p.stepFor 0 = p := rfl

theorem stepFor_succ (p : Progress η) (n : Nat) :
    p.stepFor (n + 1) = if p.halted then p else p.advance.stepFor n := rfl

theorem stepFor_of_halted {p : Progress η} (h : p.halted = true) (n : Nat) : p.stepFor n = p := by
  cases n with
  | zero => rfl
  | succ n => simp [stepFor_succ, h]

@[simp] theorem runFor_zero (p : Progress η) : p.runFor 0 = p := rfl

theorem runFor_succ (p : Progress η) (n : Nat) :
    p.runFor (n + 1) = if p.isOver then p else p.advance.runFor n := rfl

theorem runFor_of_isOver {p : Progress η} (h : p.isOver = true) (n : Nat) : p.runFor n = p := by
  cases n with
  | zero => rfl
  | succ n => simp [runFor_succ, h]

theorem runFor_add (p : Progress η) (m n : Nat) :
    p.runFor (m + n) = (p.runFor m).runFor n := by
  induction m generalizing p with
  | zero => simp
  | succ m ih =>
    rw [Nat.succ_add, runFor_succ, runFor_succ]
    by_cases h : p.isOver = true
    · simp [h, runFor_of_isOver h]
    · simp [h, ih]

end Progress

namespace Machine

variable {η : Type}

/-- Up to `n` ticks, back to back. -/
def step (m : Machine η) (n : Nat) : Outcome η Result := ((Progress.start m.idle).stepFor n).outcome

/-- The beginning of a run. -/
def beginRun (m : Machine η) : Progress η := .start (m.report (.running m.config.tickRate))

/-- A run of up to `n` ticks. -/
def runFor (m : Machine η) (n : Nat) : Outcome η Result := (m.beginRun.runFor n).finish

/-- A run without a budget, if it is over within `fuel` ticks. -/
def runWithin? (m : Machine η) (fuel : Nat) : Option (Outcome η Result) :=
  let p := m.beginRun.runFor fuel
  if p.isOver then some p.finish else none

/-- A run that is over keeps its outcome whatever budget it is given beyond that. -/
theorem runFor_of_runWithin? {m : Machine η} {fuel : Nat} {o : Outcome η Result}
    (h : m.runWithin? fuel = some o) {n : Nat} (hn : fuel ≤ n) : m.runFor n = o := by
  obtain ⟨d, rfl⟩ := Nat.exists_eq_add_of_le hn
  simp only [runWithin?] at h
  split at h
  · next hover =>
    cases h
    rw [runFor, Progress.runFor_add, Progress.runFor_of_isOver hover]
  · cases h

end Machine

end ChipEight
