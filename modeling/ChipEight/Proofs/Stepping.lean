import ChipEight.Proofs.ExecutedWords
import ChipEight.Proofs.Halting
import ChipEight.Proofs.Nesting
import ChipEight.Proofs.Variations

/-!
# Stepping composes

A step makes ticks until the machine has halted, and a tick of a halted machine does nothing.  So a
step of `n` ticks does what `n` single ticks do, and however a number of ticks is divided into
steps, single ticks and runs, the same machine is reached.  Only the answer tells whether a fault
was met by a tick or was there before: a step without a tick answers with the status.

* `Machine.value_tick`, `Machine.value_step`: ticks and steps answer with the status they leave;
* `Progress.performAll_ticksUntil`: ticks that are left out because the machine has halted;
* `Machine.forget_step`, `Machine.runFor_matches_ticks`: a step, and a run in which no stop is
  requested, do what single ticks do;
* `Command.ticks?`, `Command.performAll?_matches_ticks`: a number of ticks divided into commands;
* `steps_compose`: the main result.
-/

namespace ChipEight

/-! ### Ticks in a row -/

namespace Machine

variable {η : Type} {m : Machine η}

/-- A tick answers with the status that it leaves. -/
theorem value_tick (m : Machine η) : m.tick.value = m.tick.machine.status.answer := by
  by_cases hs : m.status = .ready
  · cases hu : m.upcoming with
    | error e =>
      obtain ⟨hm, hv, -⟩ := tick_of_upcoming_error hs hu
      rw [hm, hv]
      rfl
    | ok i =>
      obtain ⟨⟨r, hm⟩, hv⟩ := tick_of_upcoming_ok hs hu
      rw [hm, hv]
      show _ = i.effect.status.answer
      cases i.effect with
      | _ => rfl
  · rw [tick_of_not_ready hs]

theorem afterTicks_add (m : Machine η) (a b : ℕ) :
    m.afterTicks (a + b) = (m.afterTicks a).afterTicks b := by
  induction a generalizing m with
  | zero => rw [Nat.zero_add]; rfl
  | succ a ih =>
    rw [Nat.succ_add]
    exact ih m.tick.machine

theorem afterTicks_succ (m : Machine η) (k : ℕ) :
    m.afterTicks (k + 1) = (m.afterTicks k).tick.machine := m.afterTicks_add k 1

end Machine

namespace Action

variable {η : Type} {m : Machine η}

theorem performAll_ticks_of_not_ready (h : m.status ≠ .ready) (n : ℕ) :
    performAll m (List.replicate n .tick) = m.idle := by
  induction n with
  | zero => rfl
  | succ n ih =>
    have htick : Action.tick.perform m = m.idle := by
      show m.tick.forget = m.idle
      rw [Machine.tick_of_not_ready h]
      rfl
    rw [List.replicate_succ, performAll_cons, htick, Outcome.idle_andThen, ih]

end Action

namespace Progress

variable {η : Type} {p : Progress η}

/-- A sequence of ticks that is marked as halted has left a machine that is not ready. -/
def Marked (p : Progress η) : Prop := p.halted = true → p.outcome.machine.status ≠ .ready

theorem marked_start (o : Outcome η Unit) : (start o).Marked := fun h => nomatch h

theorem marked_advance (p : Progress η) : p.advance.Marked := by
  intro h hready
  rw [outcome_advance, Outcome.machine_andThen] at hready
  refine (halted_advance p).1 h ?_
  rw [Machine.value_tick, hready]
  rfl

theorem machine_advanceBy (p : Progress η) (n : ℕ) :
    (p.advanceBy n).outcome.machine = p.outcome.machine.afterTicks n := by
  rw [← Outcome.machine_forget, forget_outcome_advanceBy]
  exact Action.machine_performAll_ticks _ n

/-- A sequence that ends early because the machine has halted leaves out ticks that would do
nothing. -/
theorem performAll_ticksUntil {ended : Progress η → Bool} {n : ℕ} (hp : p.Marked)
    (he : ∀ i < n, ended (p.advanceBy i) = true → (p.advanceBy i).halted = true) :
    Action.performAll p.outcome.machine (List.replicate (p.ticksUntil ended n) .tick) =
      Action.performAll p.outcome.machine (List.replicate n .tick) := by
  induction n generalizing p with
  | zero => rfl
  | succ n ih =>
    rw [ticksUntil]
    by_cases h : ended p = true
    · have hne := hp (he 0 n.succ_pos h)
      rw [Action.performAll_ticks_of_not_ready hne, Action.performAll_ticks_of_not_ready hne]
    · rw [if_neg h, List.replicate_succ, List.replicate_succ, Action.performAll_cons,
        Action.performAll_cons]
      have htail := ih (marked_advance p) fun i hi => he (i + 1) (Nat.succ_lt_succ hi)
      rw [outcome_advance] at htail
      simp only [Outcome.andThen]
      rw [show (Action.tick.perform p.outcome.machine).machine =
        (p.outcome.andThen Machine.tick).machine from rfl, htail]

/-- After a tick, a sequence of ticks answers with the status that it leaves. -/
theorem value_stepFor {n : ℕ} (hp : p.Marked)
    (hv : p.halted = true → p.outcome.value = p.outcome.machine.status.answer) :
    (p.stepFor (n + 1)).outcome.value = (p.stepFor (n + 1)).outcome.machine.status.answer := by
  induction n generalizing p with
  | zero =>
    rw [stepFor_succ, stepFor_zero]
    split
    · next h => exact hv h
    · rw [outcome_advance]
      exact p.outcome.machine.value_tick
  | succ n ih =>
    rw [stepFor_succ]
    split
    · next h => exact hv h
    · refine ih (marked_advance p) fun _ => ?_
      rw [outcome_advance]
      exact p.outcome.machine.value_tick

end Progress

/-! ### Steps and runs -/

namespace Machine

variable {η : Type} {m : Machine η} {n : ℕ}

/-- A step that makes a tick answers with the status that it leaves. -/
theorem value_step (m : Machine η) (hn : n ≠ 0) :
    (m.step n).value = (m.step n).machine.status.answer := by
  obtain ⟨k, rfl⟩ := Nat.exists_eq_succ_of_ne_zero hn
  exact Progress.value_stepFor (Progress.marked_start _) fun h => nomatch h

theorem value_step_zero (m : Machine η) : (m.step 0).value = .ok m.status := rfl

/-- A step does what as many single ticks do. -/
theorem forget_step (m : Machine η) (n : ℕ) :
    (m.step n).forget = Action.performAll m (List.replicate n .tick) := by
  have hticks : Action.performAll m
        (List.replicate ((Progress.start m.idle).ticksUntil Progress.halted n) .tick) =
      Action.performAll m (List.replicate n .tick) :=
    Progress.performAll_ticksUntil (Progress.marked_start m.idle) fun _ _ h => h
  rw [step, Progress.stepFor_eq_advanceBy, Progress.forget_outcome_advanceBy, ← hticks]
  simp only [Progress.start, Outcome.andThen, idle, askStatus, Array.empty_append]

/-- A step can be divided. -/
theorem forget_step_add (m : Machine η) (a b : ℕ) :
    (m.step (a + b)).forget = ((m.step a).andThen fun m => m.step b).forget := by
  rw [forget_step, List.replicate_add, Action.performAll_append, ← forget_step]
  simp only [← forget_step]
  rfl

/-- A run in which no stop is requested does what single ticks do, its own reports aside. -/
theorem runFor_matches_ticks (h : ∀ k ≤ n, (m.afterTicks k).stopRequested = false) :
    (m.runFor n).Matches (Action.performAll m (List.replicate n .tick)) := by
  have hticks : Action.performAll m
        (List.replicate (m.beginRun.ticksUntil Progress.isOver n) .tick) =
      Action.performAll m (List.replicate n .tick) := by
    refine Progress.performAll_ticksUntil (p := m.beginRun) (Progress.marked_start _)
      fun i hi hover => ?_
    rcases Progress.isOver_eq_true_iff.1 hover with hhalted | hstop
    · exact hhalted
    · rw [Progress.machine_advanceBy] at hstop
      exact absurd hstop (by rw [show m.beginRun.outcome.machine = m from rfl, h i hi.le]; decide)
  obtain ⟨hm, ht⟩ := Command.finish_runFor_matches m n
  rw [Action.performAll_append, hticks] at hm ht
  have hend : (Action.performAll m (List.replicate n .tick)).machine.stopRequested = false := by
    rw [Action.machine_performAll_ticks]
    exact h n le_rfl
  constructor
  · -- there is no request for the end of the run to withdraw
    refine hm.trans ?_
    show { (Action.performAll m (List.replicate n .tick)).machine with stopRequested := false } = _
    rw [← hend]
  · rw [Outcome.trace_andThen] at ht
    exact ht.trans (List.append_nil _)

end Machine

/-! ### Dividing a number of ticks -/

namespace Command

variable {η : Type} {m : Machine η} {c : Command η} {cs : List (Command η)}

/-- How many ticks a command is asked to make, if it makes ticks and has a budget. -/
def ticks? : Command η → Option ℕ
  | tick => some 1
  | step n => some n
  | runFor n => some n
  | _ => none

/-- A command that makes ticks does what as many single ticks do, if no stop is requested while it
is a run. -/
theorem perform?_matches_ticks {n : ℕ} (hc : c.ticks? = some n)
    (hrun : c.isRun = true → ∀ k ≤ n, (m.afterTicks k).stopRequested = false) :
    ∃ o, c.perform? m = some o ∧ o.Matches (Action.performAll m (List.replicate n .tick)) := by
  cases c with
  | tick =>
    obtain rfl : 1 = n := Option.some.inj hc
    exact ⟨_, rfl, by rw [List.replicate_one, Action.performAll_singleton]; exact ⟨rfl, rfl⟩⟩
  | step k =>
    obtain rfl : k = n := Option.some.inj hc
    exact ⟨_, rfl, by rw [← Machine.forget_step]; exact ⟨rfl, rfl⟩⟩
  | runFor k =>
    obtain rfl : k = n := Option.some.inj hc
    exact ⟨_, rfl, Machine.runFor_matches_ticks (hrun rfl)⟩
  | _ => cases hc

/-- However ticks are divided into commands, single ticks do the same. -/
theorem performAll?_matches_ticks {ks : List ℕ} (hcs : cs.map ticks? = ks.map some)
    (hrun : ∀ c ∈ cs, c.isRun = true → ∀ k ≤ ks.sum, (m.afterTicks k).stopRequested = false) :
    ∃ o, performAll? m cs = some o ∧
      o.Matches (Action.performAll m (List.replicate ks.sum .tick)) := by
  induction cs generalizing m ks with
  | nil =>
    obtain rfl : ks = [] := by simpa using hcs.symm
    exact ⟨_, rfl, rfl, rfl⟩
  | cons c cs ih =>
    obtain ⟨k, ks, rfl⟩ : ∃ k js, ks = k :: js := by
      cases ks with
      | nil => cases hcs
      | cons k js => exact ⟨k, js, rfl⟩
    obtain ⟨hk, hks⟩ := List.cons.inj hcs
    rw [List.sum_cons] at hrun ⊢
    obtain ⟨o₁, ho₁, hm₁, ht₁⟩ := perform?_matches_ticks (m := m) hk fun hc j hj =>
      hrun c List.mem_cons_self hc j (by omega)
    rw [Action.machine_performAll_ticks] at hm₁
    obtain ⟨o₂, ho₂, hm₂, ht₂⟩ := ih (m := o₁.machine) hks fun d hd hr j hj => by
      rw [hm₁, ← Machine.afterTicks_add]
      exact hrun d (List.mem_cons_of_mem c hd) hr (k + j) (by omega)
    refine ⟨_, performAll?_cons_eq_some_iff.2 ⟨o₁, o₂, ho₁, ho₂, rfl⟩, ?_⟩
    rw [List.replicate_add, Action.performAll_append]
    have hmid : (Action.performAll m (List.replicate k .tick)).machine = o₁.machine := by
      rw [hm₁, Action.machine_performAll_ticks]
    constructor
    · rw [Outcome.machine_andThen, Outcome.machine_andThen, hmid]
      exact hm₂
    · rw [Outcome.trace_andThen, Outcome.trace_andThen, hmid, ht₁, ht₂]

end Command

/-- **Stepping composes.**  Whether a machine is ready or halted, a step of `a` ticks and then one
of `b` lead to the machine to which one step of `a + b` ticks leads, and the same happens on the
way.  If the second step makes a tick, it answers what the whole step answers; if it makes none,
and the first one answered with a fault, it answers that the machine is faulted.  So however a
number of ticks is divided into single ticks, steps and, as long as no stop is requested, runs, the
same machine is reached, and but for the reports of the runs the same happens. -/
theorem steps_compose {η : Type} (m : Machine η) :
    (∀ a b : ℕ,
      let first := m.step a
      let second := first.machine.step b
      let whole := m.step (a + b)
      second.machine = whole.machine ∧ first.events ++ second.events = whole.events ∧
        (b ≠ 0 → second.value = whole.value) ∧
        ∀ e, b = 0 → first.value = .error e → second.value = .ok (.faulted e)) ∧
      ∀ (cs : List (Command η)) (ks : List ℕ), cs.map Command.ticks? = ks.map some →
        (∀ c ∈ cs, c.isRun = true → ∀ k ≤ ks.sum, (m.afterTicks k).stopRequested = false) →
        ∃ o, Command.performAll? m cs = some o ∧ o.machine = (m.step ks.sum).machine ∧
          o.trace = (m.step ks.sum).trace := by
  refine ⟨fun a b => ?_, fun cs ks hcs hrun => ?_⟩
  · have hadd := m.forget_step_add a b
    have hmachine : ((m.step a).machine.step b).machine = (m.step (a + b)).machine :=
      (congrArg Outcome.machine hadd).symm
    refine ⟨hmachine, (congrArg Outcome.events hadd).symm, fun hb => ?_, fun e hb he => ?_⟩
    · rw [Machine.value_step _ hb, Machine.value_step _ (by omega), hmachine]
    · subst hb
      have ha : a ≠ 0 := by
        rintro rfl
        cases he
      rw [Machine.value_step _ ha] at he
      rw [Machine.value_step_zero, Status.answer_eq_error_iff.1 he]
  · obtain ⟨o, ho, hm, ht⟩ := Command.performAll?_matches_ticks hcs hrun
    rw [← Machine.forget_step] at hm ht
    exact ⟨o, ho, hm, ht⟩

/-- Seven ticks divided into two steps, a run and a single tick. -/
def sevenTicks : List (Command Unit) := [.step 2, .runFor 3, .tick, .step 1]

/-- The nested call returns to address zero, where its fifth tick finds no instruction.  The step
that meets this fault answers with it; a step of no ticks after it finds a faulted machine. -/
theorem steps_compose_fault :
    (lastCall.step 5).value = .error (.unrecognizedOpcode 0) ∧
      ((lastCall.step 5).machine.step 0).value = .ok (.faulted (.unrecognizedOpcode 0)) ∧
      ((lastCall.step 5).machine.step 2).value = (lastCall.step 7).value ∧
      sevenTicks.map Command.ticks? = [2, 3, 1, 1].map some ∧
      (∀ k ≤ 7, (lastCall.afterTicks k).stopRequested = false) ∧
      ∃ o, Command.performAll? lastCall sevenTicks = some o ∧
        o.machine = (lastCall.step 7).machine ∧ o.trace = (lastCall.step 7).trace := by
  have hfault : (lastCall.step 5).value = .error (.unrecognizedOpcode 0) := by decide +kernel
  have hstop : ∀ k ≤ 7, (lastCall.afterTicks k).stopRequested = false := by decide +kernel
  obtain ⟨hsplit, hdivide⟩ := steps_compose lastCall
  exact ⟨hfault, (hsplit 5 0).2.2.2 _ rfl hfault, (hsplit 5 2).2.2.1 (by decide), rfl, hstop,
    hdivide sevenTicks [2, 3, 1, 1] rfl fun _ _ _ => hstop⟩

end ChipEight
