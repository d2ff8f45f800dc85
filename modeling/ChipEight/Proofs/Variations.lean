import ChipEight.Proofs.Actions
import ChipEight.Proofs.Tick

/-!
# Machines in other circumstances

A tick asks the configuration for the dialect alone, and it never looks whether a stop is requested.
So a machine with another configuration or with a request to stop goes the same way, as long as its
instructions do the same; only a run looks at requests.

* `Outcome.alter`: an outcome with a change made to its machine;
* `Machine.varied`: a machine with another configuration and perhaps a request to stop;
* `Machine.complete_varied`, `Machine.tick_varied`, `Machine.step_varied`: what becomes of it;
* `Progress.ticksUntil_alter`, `Progress.stepFor_alter`, `Progress.runFor_alter`: sequences of ticks
  that do not notice a change;
* `Command.isRun`, `Command.perform?_varied`: the same for every command that is no run.
-/

namespace ChipEight

namespace Outcome

variable {η α β : Type}

/-- The same outcome with a change made to the machine. -/
def alter (φ : Machine η → Machine η) (o : Outcome η α) : Outcome η α :=
  ⟨φ o.machine, o.events, o.value⟩

@[simp] theorem value_alter (φ : Machine η → Machine η) (o : Outcome η α) :
    (o.alter φ).value = o.value := rfl

/-- A change that the second call does not notice can be made after it. -/
theorem alter_andThen {φ : Machine η → Machine η} {o : Outcome η α} {f : Machine η → Outcome η β}
    (h : f (φ o.machine) = (f o.machine).alter φ) :
    (o.alter φ).andThen f = (o.andThen f).alter φ := by
  simp only [andThen, alter] at h ⊢
  rw [h]

end Outcome

/-! ### Ticks -/

namespace Machine

variable {η : Type}

/-- The machine with another configuration and, if `stop` says so, a request to stop. -/
def varied (config : Config) (stop : Bool) (m : Machine η) : Machine η :=
  { m with config := config, stopRequested := m.stopRequested || stop }

theorem varied_self (m : Machine η) : m.varied m.config false = m := by
  simp [varied]

variable (config : Config) (stop : Bool) (m : Machine η)

theorem respond_varied (r : Reply η) :
    (m.varied config stop).respond r = (m.respond r).varied config stop := by
  simp [varied, respond, Bool.or_right_comm]

theorem accept_varied (r : Reply η) :
    (m.varied config stop).accept r = (m.accept r).alter (varied config stop) := by
  rw [accept, respond_varied]
  rfl

theorem showOn_varied (k : ℕ) (ds : List (Display η)) :
    (m.varied config stop).showOn k ds = (m.showOn k ds).alter (varied config stop) := by
  induction ds generalizing m k with
  | nil => rfl
  | cons d ds ih =>
    have hrest : ((m.varied config stop).accept (d m.state.frame m.host)).andThen
          (fun n => n.showOn (k + 1) ds) =
        ((m.accept (d m.state.frame m.host)).andThen fun n => n.showOn (k + 1) ds).alter
          (varied config stop) := by
      rw [accept_varied]
      exact Outcome.alter_andThen (ih (m.respond (d m.state.frame m.host)) (k + 1))
    exact Outcome.alter_andThen (o := ⟨m, #[.shown k m.state.frame], ()⟩)
      (f := fun n => (n.accept (d n.state.frame n.host)).andThen fun n => n.showOn (k + 1) ds) hrest

theorem showFrame_varied :
    (m.varied config stop).showFrame = m.showFrame.alter (varied config stop) :=
  Outcome.alter_andThen (o := m.report (.showing m.displays.length))
    (m.showOn_varied config stop 0 m.displays)

theorem soundBuzzer_varied :
    (m.varied config stop).soundBuzzer = m.soundBuzzer.alter (varied config stop) := by
  unfold soundBuzzer
  have hbuzzer : (m.varied config stop).buzzer = m.buzzer := rfl
  rw [hbuzzer]
  cases m.buzzer with
  | none => rfl
  | some b =>
    exact Outcome.alter_andThen (o := ⟨m, #[.buzzed (decide (m.state.soundTimer ≠ 0))], ()⟩)
      (m.accept_varied config stop _)

theorem perform_varied (f : Effect) :
    (m.varied config stop).perform f = (m.perform f).alter (varied config stop) := by
  cases f with
  | proceed => rfl
  | redraw => exact m.showFrame_varied config stop
  | exit code => rfl

theorem complete_varied (f : Effect) :
    (m.varied config stop).complete f = (m.complete f).alter (varied config stop) := by
  have hcount : ((m.perform f).machine.varied config stop).countDown =
      (m.perform f).machine.countDown.alter (varied config stop) := rfl
  have hbuzz := soundBuzzer_varied config stop ((m.perform f).andThen countDown).machine
  unfold complete
  rw [perform_varied, Outcome.alter_andThen hcount, Outcome.alter_andThen hbuzz,
    Outcome.alter_andThen rfl]

theorem conclude_varied (v : Except Fault Effect) :
    (m.varied config stop).conclude v = (m.conclude v).alter (varied config stop) := by
  cases v with
  | error e => rfl
  | ok f => exact m.complete_varied config stop f

/-- A tick goes the same way if the word that it fetches does the same in the other dialect. -/
theorem tick_varied
    (h : ∀ op, m.state.fetch = .ok op →
      execute (m.varied config stop).surroundings m.random m.state op =
        execute m.surroundings m.random m.state op) :
    (m.varied config stop).tick = m.tick.alter (varied config stop) := by
  have hstatus : (m.varied config stop).status = m.status := rfl
  by_cases hs : m.status = .ready
  · rw [tick_of_ready hs, tick_of_ready (hstatus.trans hs)]
    unfold executeNext
    have hfetch : (m.varied config stop).state.fetch = m.state.fetch := rfl
    rw [hfetch]
    cases hf : m.state.fetch with
    | error e => rfl
    | ok op =>
      refine Outcome.alter_andThen (o := m.reportOpcode op) ?_
      show (let x := execute (m.varied config stop).surroundings m.random m.state op
        ((m.varied config stop).adopt x).conclude x.value) = _
      rw [h op hf]
      exact conclude_varied config stop (m.adopt _) _
  · rw [tick_of_not_ready hs, tick_of_not_ready (hstatus ▸ hs)]
    rfl

theorem tick_varied_of_dialect (hd : config.dialect = m.config.dialect) :
    (m.varied config stop).tick = m.tick.alter (varied config stop) := by
  refine m.tick_varied config stop fun op _ => ?_
  have hsurroundings : (m.varied config stop).surroundings = m.surroundings := by
    simp only [surroundings, varied, hd]
  rw [hsurroundings]

end Machine

/-! ### Steps -/

namespace Progress

variable {η : Type} {φ : Machine η → Machine η}

/-- The same ticks with a change made to the machine. -/
def alter (φ : Machine η → Machine η) (p : Progress η) : Progress η :=
  { p with outcome := p.outcome.alter φ }

theorem advance_alter {p : Progress η}
    (h : (φ p.outcome.machine).tick = p.outcome.machine.tick.alter φ) :
    (p.alter φ).advance = p.advance.alter φ := by
  obtain ⟨o, k, b⟩ := p
  have htick : (o.alter φ).andThen Machine.tick = (o.andThen Machine.tick).alter φ :=
    Outcome.alter_andThen h
  simp only [alter, advance, htick, Outcome.value_alter]
  split <;> rfl

/-- Ticks that do not notice a change go the same way. -/
theorem advanceBy_alter {p : Progress η} {k : ℕ}
    (h : ∀ i < k, (φ (p.outcome.machine.afterTicks i)).tick =
      (p.outcome.machine.afterTicks i).tick.alter φ) :
    (p.alter φ).advanceBy k = (p.advanceBy k).alter φ := by
  induction k generalizing p with
  | zero => rfl
  | succ k ih =>
    rw [advanceBy, advance_alter (h 0 k.succ_pos)]
    refine ih fun i hi => ?_
    rw [outcome_advance]
    exact h (i + 1) (Nat.succ_lt_succ hi)

/-- If none of the ticks that are made notices a change, as many are made after it. -/
theorem ticksUntil_alter {ended : Progress η → Bool} (he : ∀ q, ended (q.alter φ) = ended q)
    {p : Progress η} {n : ℕ}
    (h : ∀ i < p.ticksUntil ended n, (φ (p.outcome.machine.afterTicks i)).tick =
      (p.outcome.machine.afterTicks i).tick.alter φ) :
    (p.alter φ).ticksUntil ended n = p.ticksUntil ended n := by
  induction n generalizing p with
  | zero => rfl
  | succ n ih =>
    rw [ticksUntil] at h
    rw [ticksUntil, ticksUntil, he]
    by_cases hp : ended p = true
    · rw [if_pos hp, if_pos hp]
    · rw [if_neg hp] at h
      rw [if_neg hp, if_neg hp, advance_alter (h 0 (Nat.succ_pos _)), ih fun i hi => ?_]
      rw [outcome_advance]
      exact h (i + 1) (Nat.succ_lt_succ hi)

theorem stepFor_alter {p : Progress η} {n : ℕ}
    (h : ∀ i < p.ticksUntil halted n, (φ (p.outcome.machine.afterTicks i)).tick =
      (p.outcome.machine.afterTicks i).tick.alter φ) :
    (p.alter φ).stepFor n = (p.stepFor n).alter φ := by
  have hcount : (p.alter φ).ticksUntil halted n = p.ticksUntil halted n :=
    ticksUntil_alter (fun _ => rfl) h
  rw [stepFor_eq_advanceBy, stepFor_eq_advanceBy, hcount]
  exact advanceBy_alter h

theorem runFor_alter (he : ∀ q : Progress η, (q.alter φ).isOver = q.isOver) {p : Progress η}
    {n : ℕ} (h : ∀ i < p.ticksUntil isOver n, (φ (p.outcome.machine.afterTicks i)).tick =
      (p.outcome.machine.afterTicks i).tick.alter φ) :
    (p.alter φ).runFor n = (p.runFor n).alter φ := by
  rw [runFor_eq_advanceBy, runFor_eq_advanceBy, ticksUntil_alter he h]
  exact advanceBy_alter h

/-- If the ticks before the last of `j` do not notice a change, then all `j` are made after it. -/
theorem le_ticksUntil_alter {ended : Progress η → Bool} (he : ∀ q, ended (q.alter φ) = ended q)
    {p : Progress η} {j n : ℕ} (hj : j ≤ p.ticksUntil ended n)
    (h : ∀ i, i + 1 < j → (φ (p.outcome.machine.afterTicks i)).tick =
      (p.outcome.machine.afterTicks i).tick.alter φ) :
    j ≤ (p.alter φ).ticksUntil ended n := by
  induction n generalizing p j with
  | zero => exact hj
  | succ n ih =>
    rw [ticksUntil] at hj
    rw [ticksUntil, he]
    by_cases hp : ended p = true
    · rwa [if_pos hp] at hj ⊢
    · rw [if_neg hp] at hj ⊢
      rcases j with - | - | j
      · exact Nat.zero_le _
      · exact Nat.succ_le_succ (Nat.zero_le _)
      · rw [advance_alter (h 0 (by omega))]
        refine Nat.succ_le_succ (ih (Nat.le_of_succ_le_succ hj) fun i hi => ?_)
        rw [outcome_advance]
        exact h (i + 1) (by omega)

end Progress

namespace Machine

variable {η : Type} {config : Config} {m : Machine η}

theorem builtAlike_afterTicks (m : Machine η) (n : ℕ) : m.BuiltAlike (m.afterTicks n) := by
  induction n generalizing m with
  | zero => exact ⟨rfl, rfl, rfl, rfl⟩
  | succ n ih => exact m.builtAlike_tick.trans (ih m.tick.machine)

theorem config_afterTicks (m : Machine η) (n : ℕ) : (m.afterTicks n).config = m.config :=
  (m.builtAlike_afterTicks n).config

theorem step_varied (hd : config.dialect = m.config.dialect) (stop : Bool) (n : ℕ) :
    (m.varied config stop).step n = (m.step n).alter (varied config stop) := by
  have hsteps : ((Progress.start m.idle).alter (varied config stop)).stepFor n =
      ((Progress.start m.idle).stepFor n).alter (varied config stop) := by
    refine Progress.stepFor_alter fun i _ => tick_varied_of_dialect config stop _ ?_
    rw [config_afterTicks]
    exact hd
  exact congrArg Progress.outcome hsteps

theorem reset_varied (config : Config) (stop : Bool) (m : Machine η) :
    (m.varied config stop).reset = m.reset.alter (varied config stop) :=
  Outcome.alter_andThen
    (o := Machine.report { m with state := State.initial, status := .ready } .machineReset)
    (showFrame_varied config stop _)

end Machine

theorem Action.config_perform {η : Type} (m : Machine η) (a : Action η) :
    (a.perform m).machine.config = m.config := by
  cases a with
  | tick => exact m.builtAlike_tick.config
  | reset => exact m.builtAlike_reset.config
  | _ => rfl

theorem Action.config_performAll {η : Type} (m : Machine η) (as : List (Action η)) :
    (performAll m as).machine.config = m.config :=
  performAll_preserves (P := fun n => n.config = m.config)
    (fun a _ n hn => (config_perform n a).trans hn) rfl

/-! ### Commands -/

namespace Command

variable {η : Type} {config : Config} {m : Machine η} {c : Command η}

/-- Whether a command is a run, with a budget or without. -/
def isRun : Command η → Bool
  | runFor _ => true
  | start _ => true
  | _ => false

/-- A command that is no run does not notice another configuration of the same dialect, nor whether
a stop is requested. -/
theorem perform?_varied (hd : config.dialect = m.config.dialect) (stop : Bool)
    (hc : c.isRun = false) :
    c.perform? (m.varied config stop) =
      (c.perform? m).map (Outcome.alter (Machine.varied config stop)) := by
  cases c with
  | reset =>
    simp only [perform?, Machine.reset_varied]
    rfl
  | tick =>
    simp only [perform?, Machine.tick_varied_of_dialect config stop m hd]
    rfl
  | step n =>
    simp only [perform?, Machine.step_varied hd]
    rfl
  | runFor n => cases hc
  | start fuel => cases hc
  | updateHost change =>
    have hupdate : (m.varied config stop).updateHost change =
        (m.updateHost change).alter (Machine.varied config stop) :=
      m.accept_varied config stop (change m.host)
    simp only [perform?, hupdate]
    rfl
  | _ => rfl

theorem config_of_perform? {o : Outcome η Answer} (h : c.perform? m = some o) :
    o.machine.config = m.config := by
  rw [(matches_of_perform? h).1]
  exact Action.config_performAll m _

end Command

end ChipEight
