import ChipEight.Proofs.Reports
import ChipEight.Proofs.Unstopped

/-!
# What a run reports

The loop of a run makes ticks until a stop is requested, the machine is not ready any more or the
budget is used up.  The run reports its beginning, what these ticks report and, unless a fault ends
it, how many there have been.

* `Progress.ticksUntil_spec`, `Progress.ticks_advanceBy`: how far a sequence of ticks goes, and how
  many of its ticks are counted;
* `Machine.RunsFor`: how many ticks the loop of a run makes;
* `Outcome.Accounted`: there are no records but the machine's own and those of answers;
* `Machine.ownRecords_runFor`, `Machine.ownRecords_of_runWithin?_eq_none`: the reports of a run that
  is over, and of one that is not.
-/

namespace ChipEight

/-! ### The ticks of a run -/

namespace Progress

variable {η : Type} {p : Progress η}

theorem advanceBy_succ (p : Progress η) (k : ℕ) :
    p.advanceBy (k + 1) = (p.advanceBy k).advance := by
  induction k generalizing p with
  | zero => rfl
  | succ k ih => exact ih p.advance

/-- A sequence goes on as long as it is not over and ticks are left. -/
theorem ticksUntil_spec (ended : Progress η → Bool) (p : Progress η) (n : ℕ) :
    (∀ j < p.ticksUntil ended n, ended (p.advanceBy j) = false ∧ j < n) ∧
      (p.ticksUntil ended n = n ∨ ended (p.advanceBy (p.ticksUntil ended n)) = true) := by
  induction n generalizing p with
  | zero => exact ⟨fun j hj => absurd hj (Nat.not_lt_zero j), .inl rfl⟩
  | succ n ih =>
    rw [ticksUntil]
    by_cases h : ended p = true
    · rw [if_pos h]
      exact ⟨fun j hj => absurd hj (Nat.not_lt_zero j), .inr h⟩
    · rw [if_neg h]
      obtain ⟨hgo, hend⟩ := ih p.advance
      refine ⟨fun j hj => ?_, hend.imp (congrArg Nat.succ) id⟩
      cases j with
      | zero => exact ⟨Bool.not_eq_true _ ▸ h, n.succ_pos⟩
      | succ j =>
        obtain ⟨hnot, hlt⟩ := hgo j (Nat.lt_of_succ_lt_succ hj)
        exact ⟨hnot, Nat.succ_lt_succ hlt⟩

theorem ticksUntil_le (ended : Progress η → Bool) (p : Progress η) (n : ℕ) :
    p.ticksUntil ended n ≤ n := by
  by_contra hlt
  exact Nat.lt_irrefl n ((p.ticksUntil_spec ended n).1 n (Nat.lt_of_not_le hlt)).2

theorem Sane.advanceBy (h : p.Sane) (k : ℕ) : (p.advanceBy k).Sane := by
  cases k with
  | zero => exact h
  | succ k =>
    rw [advanceBy_succ]
    exact Sane.advance _

/-- Ticks that return a status are counted. -/
theorem ticks_advanceBy (h : p.Sane) {k : ℕ} (hgo : ∀ j < k, (p.advanceBy j).halted = false)
    {st : Status} (hst : (p.advanceBy k).outcome.value = .ok st) :
    (p.advanceBy k).ticks = p.ticks + k := by
  induction k generalizing st with
  | zero => rfl
  | succ k ih =>
    obtain ⟨st', hst'⟩ := h.advanceBy k (hgo k k.lt_succ_self)
    rw [advanceBy_succ] at hst ⊢
    rw [ticks_advance hst, ih (fun j hj => hgo j (Nat.lt_succ_of_lt hj)) hst', Nat.add_assoc]

theorem records_advanceBy (p : Progress η) (k : ℕ) :
    (p.advanceBy k).outcome.records = p.outcome.records ++
      (List.range k).flatMap fun j => (p.outcome.machine.afterTicks j).tick.records := by
  induction k with
  | zero => exact (List.append_nil _).symm
  | succ k ih =>
    rw [advanceBy_succ, outcome_advance, Outcome.records_andThen, ih, machine_advanceBy,
      List.range_succ, List.flatMap_append, List.flatMap_singleton, List.append_assoc]

/-- Two sequences that are over after the same ticks make as many. -/
theorem ticksUntil_congr {η' : Type} {ended : Progress η → Bool} {ended' : Progress η' → Bool}
    {p : Progress η} {q : Progress η'} {n : ℕ}
    (h : ∀ j < n, ended' (q.advanceBy j) = ended (p.advanceBy j)) :
    q.ticksUntil ended' n = p.ticksUntil ended n := by
  induction n generalizing p q with
  | zero => rfl
  | succ n ih =>
    have hnow : ended' q = ended p := h 0 n.succ_pos
    rw [ticksUntil, ticksUntil, hnow, ih fun j hj => h (j + 1) (Nat.succ_lt_succ hj)]

end Progress

namespace Machine

variable {η : Type} {m : Machine η} {n k : ℕ}

/-- The loop of a run makes `k` ticks: before each of them no stop is requested, the tick before it
has left the machine ready and the budget, if there is one, is not used up; and after them one of
these things is not so. -/
structure RunsFor (m : Machine η) (budget : Option ℕ) (k : ℕ) : Prop where
  calm : ∀ j < k, (m.afterTicks j).stopRequested = false
  ready : ∀ j < k, j ≠ 0 → (m.afterTicks j).status = .ready
  within : ∀ b, budget = some b → k ≤ b
  finished : (m.afterTicks k).stopRequested = true ∨ (k ≠ 0 ∧ (m.afterTicks k).status ≠ .ready) ∨
    budget = some k

/-- A run makes no tick if a stop is pending or its budget is zero; otherwise a run that finds the
machine halted makes one. -/
theorem RunsFor.eq_of_not_ready {budget : Option ℕ} (h : m.RunsFor budget k)
    (hs : m.status ≠ .ready) :
    k = if m.stopRequested = true ∨ budget = some 0 then 0 else 1 := by
  split
  · next hnone =>
    by_contra hne
    rcases hnone with hstop | hbudget
    · have hcalm : m.stopRequested = false := h.calm 0 (Nat.pos_of_ne_zero hne)
      rw [hstop] at hcalm
      cases hcalm
    · exact hne (Nat.le_zero.1 (h.within 0 hbudget))
  · next hsome =>
    have hle : k ≤ 1 := by
      by_contra hlt
      have hready := h.ready 1 (by omega) one_ne_zero
      rw [afterTicks_of_not_ready hs] at hready
      exact hs hready
    have hne : k ≠ 0 := by
      rintro rfl
      rcases h.finished with hover | ⟨hne, -⟩ | hover
      · exact hsome (.inl hover)
      · exact hne rfl
      · exact hsome (.inr hover)
    omega

theorem machine_beginRun_advanceBy (m : Machine η) (j : ℕ) :
    (m.beginRun.advanceBy j).outcome.machine = m.afterTicks j := m.beginRun.machine_advanceBy j

theorem halted_beginRun_advanceBy (m : Machine η) (j : ℕ) :
    (m.beginRun.advanceBy j).halted = true ↔ j ≠ 0 ∧ (m.afterTicks j).status ≠ .ready := by
  cases j with
  | zero => exact iff_of_false Bool.false_ne_true fun h => h.1 rfl
  | succ j =>
    rw [← machine_beginRun_advanceBy, Progress.advanceBy_succ, (Progress.faithful_advance _).halted]
    simp

theorem isOver_beginRun_advanceBy (m : Machine η) (j : ℕ) :
    (m.beginRun.advanceBy j).isOver = true ↔
      (j ≠ 0 ∧ (m.afterTicks j).status ≠ .ready) ∨ (m.afterTicks j).stopRequested = true := by
  rw [Progress.isOver_eq_true_iff, halted_beginRun_advanceBy, machine_beginRun_advanceBy]

/-- The ticks of a run with a budget, and of one without that is over. -/
theorem runsFor_ticksUntil {budget : Option ℕ} (hbudget : ∀ b, budget = some b → b = n)
    (hover : budget = none → (m.beginRun.runFor n).isOver = true) :
    m.RunsFor budget (m.beginRun.ticksUntil Progress.isOver n) := by
  obtain ⟨hgo, hend⟩ := m.beginRun.ticksUntil_spec Progress.isOver n
  rw [Progress.runFor_eq_advanceBy] at hover
  generalize m.beginRun.ticksUntil Progress.isOver n = k at hgo hend hover
  have hgoes : ∀ j < k, ¬ ((j ≠ 0 ∧ (m.afterTicks j).status ≠ .ready) ∨
      (m.afterTicks j).stopRequested = true) := by
    intro j hj hover
    rw [← isOver_beginRun_advanceBy, (hgo j hj).1] at hover
    cases hover
  refine ⟨fun j hj => ?_, fun j hj hne => ?_, fun b hb => ?_, ?_⟩
  · simpa using fun hstop => hgoes j hj (.inr hstop)
  · by_contra hs
    exact hgoes j hj (.inl ⟨hne, hs⟩)
  · rw [hbudget b hb]
    by_contra hlt
    exact absurd (hgo n (by omega)).2 (Nat.lt_irrefl n)
  · have hend' : budget = some k ∨ (m.beginRun.advanceBy k).isOver = true := by
      rcases hend with rfl | hend
      · cases budget with
        | none => exact .inr (hover rfl)
        | some b => exact .inl (congrArg some (hbudget b rfl))
      · exact .inr hend
    rw [isOver_beginRun_advanceBy] at hend'
    rcases hend' with hend' | hend' | hend'
    · exact .inr (.inr hend')
    · exact .inr (.inl hend')
    · exact .inl hend'

/-! ### Reports -/

theorem reports_beginRun_advanceBy (m : Machine η) (k : ℕ) :
    (m.beginRun.advanceBy k).outcome.Reports m
      (.running m.config.tickRate :: m.ticksRecords k) := by
  have hask : m.askStatus.Reports m [] := m.heard_askStatus.reports rfl
  have hbegin : m.beginRun.outcome.Reports m [.running m.config.tickRate] :=
    (m.reports_report _).andThen hask
  have hforget : (m.beginRun.advanceBy k).outcome.forget.Reports m
      ([.running m.config.tickRate] ++ m.ticksRecords k) := by
    rw [Progress.forget_outcome_advanceBy]
    exact hbegin.andThen (m.reports_ticks k)
  exact hforget.congr rfl rfl

end Machine

namespace Outcome

variable {η α β : Type} {m : Machine η} {o : Outcome η α} {p : Outcome η β} {rs ss : List LogRecord}

/-- All records of a call are the machine's own or belong to answers. -/
def Accounted (m : Machine η) (o : Outcome η α) : Prop :=
  o.records.Perm (o.ownRecords m ++ o.hostRecords m)

theorem Reports.accounted (h : o.Reports m rs) : o.Accounted m := by
  rw [Accounted, h.ownRecords_eq]
  exact h.all

/-- More reports at the end of a call. -/
theorem Reports.append (h : o.Reports m rs)
    (he : p.events.toList = o.events.toList ++ ss.map Event.log) :
    p.ownRecords m = rs ++ ss ∧ p.Accounted m := by
  have hown : p.ownRecords m = rs ++ ss := by
    have hlogs : m.ownRecords o.machine.host 0 (ss.map Event.log ++ []) = ss ++ [] :=
      Machine.ownRecords_logs ss
    rw [List.append_nil, List.append_nil] at hlogs
    rw [ownRecords, he, h.own, hlogs]
  have hhost : p.hostRecords m = o.hostRecords m := by
    have hnone : ∀ c, m.replies c (ss.map Event.log) = [] := fun c =>
      Machine.replies_of_logs (by simp)
    rw [hostRecords, he, Machine.replies_append, hnone, List.append_nil]
    rfl
  have hall : p.records = o.records ++ ss := by
    rw [records, he, List.filterMap_append, List.filterMap_map]
    simp [records, Function.comp_def, Event.record?]
  refine ⟨hown, ?_⟩
  rw [Accounted, hown, hhost, hall, List.append_assoc]
  refine (h.all.append_right ss).trans ?_
  rw [List.append_assoc]
  exact List.perm_append_comm.append_left rs

end Outcome

/-- The report at the end of a run of `k` ticks, unless it answers with a fault. -/
def LogRecord.closing {α : Type} (k : ℕ) : Except Fault α → List LogRecord
  | .ok _ => [.stopped k]
  | .error _ => []

namespace Machine

variable {η : Type} {m : Machine η} {n fuel : ℕ}

/-- At its end a run reports the number of its ticks, unless it ends with a fault. -/
theorem events_runFor (m : Machine η) (n : ℕ) :
    let k := m.beginRun.ticksUntil Progress.isOver n
    (m.runFor n).events.toList = (m.beginRun.advanceBy k).outcome.events.toList ++
      (LogRecord.closing k (m.runFor n).value).map Event.log := by
  intro k
  have hrun : m.beginRun.runFor n = m.beginRun.advanceBy k :=
    Progress.runFor_eq_advanceBy m.beginRun n
  rw [runFor, hrun]
  show (m.beginRun.advanceBy k).finish.events.toList = _ ++
    (LogRecord.closing k (m.beginRun.advanceBy k).outcome.value).map Event.log
  cases hv : (m.beginRun.advanceBy k).outcome.value with
  | error e => simp [Progress.finish, hv, LogRecord.closing]
  | ok st =>
    have hgo : ∀ j < k, (m.beginRun.advanceBy j).halted = false := by
      intro j hj
      have hnot := ((m.beginRun.ticksUntil_spec Progress.isOver n).1 j hj).1
      rw [Progress.isOver, Bool.or_eq_false_iff] at hnot
      exact hnot.1
    have hticks := Progress.ticks_advanceBy (p := m.beginRun) (fun _ => ⟨m.status, rfl⟩) hgo hv
    rw [Progress.events_finish hv, hticks]
    simp [LogRecord.closing, beginRun, Progress.start]

/-- A run reports its beginning, what its ticks report and, unless it ends with a fault, the number
of its ticks. -/
theorem ownRecords_runFor (m : Machine η) (n : ℕ) :
    let k := m.beginRun.ticksUntil Progress.isOver n
    (m.runFor n).ownRecords m =
        .running m.config.tickRate :: m.ticksRecords k ++ LogRecord.closing k (m.runFor n).value ∧
      (m.runFor n).Accounted m := by
  intro k
  exact (m.reports_beginRun_advanceBy k).append (m.events_runFor n)

/-- All records of a run, those of displays and buzzer included. -/
theorem records_runFor (m : Machine η) (n : ℕ) :
    let k := m.beginRun.ticksUntil Progress.isOver n
    (m.runFor n).records =
      (.running m.config.tickRate ::
          (List.range k).flatMap fun j => (m.afterTicks j).tick.records) ++
        LogRecord.closing k (m.runFor n).value := by
  intro k
  have hbegin : m.beginRun.outcome.records = [.running m.config.tickRate] := rfl
  have hlogs : ∀ rs : List LogRecord, (rs.map Event.log).filterMap Event.record? = rs := by
    intro rs
    simp [List.filterMap_map, Function.comp_def, Event.record?]
  rw [Outcome.records, events_runFor, List.filterMap_append, hlogs]
  refine congrArg (· ++ _) ?_
  exact (m.beginRun.records_advanceBy k).trans (congrArg (· ++ _) hbegin)

/-- A run without a budget that is not over yet has reported its beginning and what its ticks
report. -/
theorem ownRecords_of_runWithin?_eq_none (h : m.runWithin? fuel = none) :
    (m.beginRun.runFor fuel).outcome.ownRecords m =
      .running m.config.tickRate :: m.ticksRecords fuel := by
  have hover : ¬ (m.beginRun.runFor fuel).isOver = true := by
    intro hover
    rw [runWithin?] at h
    simp only [hover, if_true] at h
    cases h
  rw [Progress.runFor_eq_advanceBy] at hover ⊢
  rw [(m.beginRun.ticksUntil_spec Progress.isOver fuel).2.resolve_right hover]
  exact (m.reports_beginRun_advanceBy fuel).ownRecords_eq

end Machine

end ChipEight
