import ChipEight.Machine.Command
import ChipEight.Proofs.Runs

/-!
# What commands consist of

A step or a run is a row of ticks, so a history of commands is a history of single actions: ticks,
resets, loads and changes of the surroundings.  What is true of every action is true of every
command, and what happens at each tick of a run can be said of its action.

* `Action`, `Action.perform`, `Action.performAll`;
* `Action.performAll_preserves`: what survives each action survives any number of them;
* `Outcome.trace`: what happens during a call, but for the reports that open and close a run;
* `Command.actions`, `Command.allActions`: the actions of a command and of a list of commands;
* `Command.matches_of_performAll?`: commands do what their actions do.
-/

namespace ChipEight

/-- One thing that happens to a machine. -/
inductive Action (η : Type)
  | tick
  | reset
  | loadProgram (rom : List UInt8)
  /-- Make or withdraw a request to stop. -/
  | setStop (on : Bool)
  | addDisplay (display : Display η)
  | setBuzzer (buzzer : Buzzer η)
  | updateHost (change : η → Reply η)

/-! ### Outcomes without their values -/

/-- Whether an event is one of the two reports that a run makes apart from its ticks. -/
def Event.isRunReport : Event → Bool
  | log (.running _) => true
  | log (.stopped _) => true
  | _ => false

namespace Outcome

variable {η α β : Type}

/-- The same outcome with the value dropped. -/
def forget (o : Outcome η α) : Outcome η Unit := ⟨o.machine, o.events, ()⟩

/-- What happens during a call, in order, but for the reports that open and close a run. -/
def trace (o : Outcome η α) : List Event := o.events.toList.filter fun x => !x.isRunReport

@[simp] theorem machine_forget (o : Outcome η α) : o.forget.machine = o.machine := rfl

@[simp] theorem trace_forget (o : Outcome η α) : o.forget.trace = o.trace := rfl

@[simp] theorem idle_andThen (m : Machine η) (f : Machine η → Outcome η β) :
    m.idle.andThen f = f m := by
  simp [andThen, Machine.idle]

@[simp] theorem andThen_idle (o : Outcome η Unit) : o.andThen Machine.idle = o := by
  simp [andThen, Machine.idle]

@[simp] theorem trace_andThen (o : Outcome η α) (f : Machine η → Outcome η β) :
    (o.andThen f).trace = o.trace ++ (f o.machine).trace := by
  simp [trace]

theorem calls_eq_filter_trace (o : Outcome η α) : o.calls = o.trace.filter Event.isCall := by
  rw [calls, trace, List.filter_filter]
  refine List.filter_congr fun x _ => ?_
  cases x with
  | log record => rfl
  | shown k f => rfl
  | buzzed on => rfl

/-- Two outcomes lead to the same machine and, the reports around runs aside, the same happened. -/
def Matches (o : Outcome η α) (p : Outcome η β) : Prop := o.machine = p.machine ∧ o.trace = p.trace

theorem Matches.calls_eq {o : Outcome η α} {p : Outcome η β} (h : o.Matches p) :
    o.calls = p.calls := by
  rw [calls_eq_filter_trace, calls_eq_filter_trace, h.2]

end Outcome

/-! ### Actions -/

namespace Action

variable {η : Type}

/-- What an action does. -/
def perform (m : Machine η) : Action η → Outcome η Unit
  | tick => m.tick.forget
  | reset => m.reset
  | loadProgram rom => (m.loadProgram rom).forget
  | setStop on => Machine.idle { m with stopRequested := on }
  | addDisplay display => (m.addDisplay display).idle
  | setBuzzer buzzer => (m.setBuzzer buzzer).idle
  | updateHost change => m.updateHost change

/-- Actions one after another. -/
def performAll (m : Machine η) : List (Action η) → Outcome η Unit
  | [] => m.idle
  | a :: as => (a.perform m).andThen fun m => performAll m as

@[simp] theorem performAll_nil (m : Machine η) : performAll m [] = m.idle := rfl

theorem performAll_cons (m : Machine η) (a : Action η) (as : List (Action η)) :
    performAll m (a :: as) = (a.perform m).andThen fun m => performAll m as := rfl

theorem performAll_append (m : Machine η) (as bs : List (Action η)) :
    performAll m (as ++ bs) = (performAll m as).andThen fun m => performAll m bs := by
  induction as generalizing m with
  | nil => rw [List.nil_append, performAll_nil, Outcome.idle_andThen]
  | cons a as ih =>
    rw [List.cons_append, performAll_cons, performAll_cons, Outcome.andThen_assoc]
    simp only [ih]

@[simp] theorem performAll_singleton (m : Machine η) (a : Action η) :
    performAll m [a] = a.perform m := (a.perform m).andThen_idle

/-- What holds of a machine and survives each of the actions holds after them. -/
theorem performAll_preserves {P : Machine η → Prop} {m : Machine η} {as : List (Action η)}
    (hP : ∀ a ∈ as, ∀ n, P n → P (a.perform n).machine) (h : P m) :
    P (performAll m as).machine := by
  induction as generalizing m with
  | nil => exact h
  | cons a as ih =>
    have hfirst : P (a.perform m).machine := hP a List.mem_cons_self m h
    exact ih (fun b hb => hP b (List.mem_cons_of_mem a hb)) hfirst

end Action

/-! ### The ticks of a step or a run -/

namespace Progress

variable {η : Type}

/-- The number of ticks made out of `n` allowed ones before a sequence is over. -/
def ticksUntil (ended : Progress η → Bool) (p : Progress η) : ℕ → ℕ
  | 0 => 0
  | n + 1 => if ended p then 0 else p.advance.ticksUntil ended n + 1

/-- Exactly `n` ticks more. -/
def advanceBy (p : Progress η) : ℕ → Progress η
  | 0 => p
  | n + 1 => p.advance.advanceBy n

theorem stepFor_eq_advanceBy (p : Progress η) (n : ℕ) :
    p.stepFor n = p.advanceBy (p.ticksUntil halted n) := by
  induction n generalizing p with
  | zero => rfl
  | succ n ih =>
    rw [stepFor_succ, ticksUntil]
    split
    · rfl
    · exact ih p.advance

theorem runFor_eq_advanceBy (p : Progress η) (n : ℕ) :
    p.runFor n = p.advanceBy (p.ticksUntil isOver n) := by
  induction n generalizing p with
  | zero => rfl
  | succ n ih =>
    rw [runFor_succ, ticksUntil]
    split
    · rfl
    · exact ih p.advance

/-- Ticks in a row do what as many actions do. -/
theorem forget_outcome_advanceBy (p : Progress η) (n : ℕ) :
    (p.advanceBy n).outcome.forget =
      p.outcome.andThen fun m => Action.performAll m (List.replicate n .tick) := by
  induction n generalizing p with
  | zero => simp [advanceBy, Outcome.forget, Outcome.andThen, Machine.idle]
  | succ n ih =>
    refine (ih p.advance).trans ?_
    rw [outcome_advance, Outcome.andThen_assoc]
    rfl

theorem outcome_advanceBy_matches (p : Progress η) (n : ℕ) :
    (p.advanceBy n).outcome.Matches
      (p.outcome.andThen fun m => Action.performAll m (List.replicate n .tick)) := by
  rw [← forget_outcome_advanceBy]
  exact ⟨rfl, rfl⟩

end Progress

/-! ### The actions of a command -/

namespace Command

variable {η : Type}

/-- The actions of which a command consists. -/
def actions (m : Machine η) : Command η → List (Action η)
  | loadProgram rom => [.loadProgram rom]
  | reset => [.reset]
  | tick => [.tick]
  | step n => List.replicate ((Progress.start m.idle).ticksUntil Progress.halted n) .tick
  | runFor n => List.replicate (m.beginRun.ticksUntil Progress.isOver n) .tick ++ [.setStop false]
  | start fuel =>
      List.replicate (m.beginRun.ticksUntil Progress.isOver fuel) .tick ++ [.setStop false]
  | requestStop => [.setStop true]
  | addDisplay display => [.addDisplay display]
  | setBuzzer buzzer => [.setBuzzer buzzer]
  | updateHost change => [.updateHost change]

/-- The actions of which commands consist, each command being performed where the one before it
has led. -/
def allActions (m : Machine η) : List (Command η) → List (Action η)
  | [] => []
  | c :: cs =>
      match c.perform? m with
      | none => []
      | some o => c.actions m ++ allActions o.machine cs

variable {m : Machine η} {c : Command η}

/-- Only a reset has a reset among its actions. -/
theorem reset_mem_actions_iff : Action.reset ∈ c.actions m ↔ c = .reset := by
  cases c <;> simp [actions, List.mem_replicate]

/-- Only a load has a load among its actions. -/
theorem loadProgram_mem_actions_iff {rom : List UInt8} :
    Action.loadProgram rom ∈ c.actions m ↔ c = .loadProgram rom := by
  cases c <;> simp [actions, List.mem_replicate, eq_comm]

/-- The end of a run is the withdrawal of a request to stop. -/
theorem finish_runFor_matches (m : Machine η) (n : ℕ) :
    (m.beginRun.runFor n).finish.Matches
      (Action.performAll m
        (List.replicate (m.beginRun.ticksUntil Progress.isOver n) .tick ++ [.setStop false])) := by
  rw [Progress.runFor_eq_advanceBy]
  generalize m.beginRun.ticksUntil Progress.isOver n = k
  obtain ⟨hm, ht⟩ := m.beginRun.outcome_advanceBy_matches k
  rw [Action.performAll_append]
  refine ⟨?_, ?_⟩
  · exact congrArg (fun m : Machine η => { m with stopRequested := false }) hm
  · unfold Progress.finish
    rw [Outcome.trace_andThen, Outcome.trace_andThen, ht]
    cases (m.beginRun.advanceBy k).outcome.value <;>
      simp [Machine.beginRun, Progress.start, Machine.report, Machine.askStatus, Outcome.andThen,
        Outcome.trace, Event.isRunReport, Action.perform, Machine.idle]

/-- A command does what its actions do. -/
theorem matches_of_perform? {o : Outcome η Answer} (h : c.perform? m = some o) :
    o.Matches (Action.performAll m (c.actions m)) := by
  cases c with
  | step n =>
    cases h
    simp only [actions]
    obtain ⟨hm, ht⟩ := (Progress.start m.idle).outcome_advanceBy_matches
      ((Progress.start m.idle).ticksUntil Progress.halted n)
    rw [← Progress.stepFor_eq_advanceBy] at hm ht
    refine ⟨hm, ht.trans ?_⟩
    simp [Progress.start, Outcome.trace, Machine.idle, Machine.askStatus]
  | runFor n => cases h; exact finish_runFor_matches m n
  | start fuel =>
    obtain ⟨q, hq, rfl⟩ := Option.map_eq_some_iff.1 h
    rw [← Machine.runFor_of_runWithin? hq le_rfl]
    exact finish_runFor_matches m fuel
  | _ =>
    cases h
    rw [actions, Action.performAll_singleton]
    exact ⟨rfl, rfl⟩

/-! ### Lists of commands -/

variable {cs ds : List (Command η)} {o : Outcome η Unit}

theorem performAll?_cons_eq_some_iff :
    performAll? m (c :: cs) = some o ↔
      ∃ o₁ o₂, c.perform? m = some o₁ ∧ performAll? o₁.machine cs = some o₂ ∧
        o = o₁.andThen fun _ => o₂ := by
  rw [performAll?]
  cases c.perform? m with
  | none => simp
  | some o₁ => simp [Outcome.andThen, eq_comm]

theorem performAll?_append_eq_some_iff :
    performAll? m (cs ++ ds) = some o ↔
      ∃ o₁ o₂, performAll? m cs = some o₁ ∧ performAll? o₁.machine ds = some o₂ ∧
        o = o₁.andThen fun _ => o₂ := by
  induction cs generalizing m o with
  | nil => simp [performAll?, Outcome.andThen, Machine.idle]
  | cons c cs ih =>
    rw [List.cons_append]
    simp only [performAll?_cons_eq_some_iff, ih]
    constructor
    · rintro ⟨o₁, -, hc, ⟨o₂, o₃, hcs, hds, rfl⟩, rfl⟩
      exact ⟨_, o₃, ⟨o₁, o₂, hc, hcs, rfl⟩, hds, by rw [Outcome.andThen_assoc]⟩
    · rintro ⟨-, o₃, ⟨o₁, o₂, hc, hcs, rfl⟩, hds, rfl⟩
      exact ⟨o₁, _, hc, ⟨o₂, o₃, hcs, hds, rfl⟩, by rw [Outcome.andThen_assoc]⟩

theorem allActions_cons {o₁ : Outcome η Answer} (h : c.perform? m = some o₁) :
    allActions m (c :: cs) = c.actions m ++ allActions o₁.machine cs := by
  rw [allActions, h]

/-- **Commands do what their actions do.** -/
theorem matches_of_performAll? (h : performAll? m cs = some o) :
    o.Matches (Action.performAll m (allActions m cs)) := by
  induction cs generalizing m o with
  | nil => cases h; exact ⟨rfl, rfl⟩
  | cons c cs ih =>
    obtain ⟨o₁, o₂, hc, hcs, rfl⟩ := performAll?_cons_eq_some_iff.1 h
    obtain ⟨hm, ht⟩ := matches_of_perform? hc
    obtain ⟨hm', ht'⟩ := ih hcs
    rw [allActions_cons hc, Action.performAll_append]
    refine ⟨?_, ?_⟩
    · rw [Outcome.machine_andThen, Outcome.machine_andThen, ← hm]; exact hm'
    · rw [Outcome.trace_andThen, Outcome.trace_andThen, ← hm, ← ht, ht']

theorem exists_of_mem_allActions {a : Action η} (h : a ∈ allActions m cs) :
    ∃ c ∈ cs, ∃ m : Machine η, a ∈ c.actions m := by
  induction cs generalizing m with
  | nil => cases h
  | cons c cs ih =>
    unfold allActions at h
    split at h
    · cases h
    · rcases List.mem_append.1 h with h | h
      · exact ⟨c, List.mem_cons_self, m, h⟩
      · obtain ⟨d, hd, hm⟩ := ih h
        exact ⟨d, List.mem_cons_of_mem c hd, hm⟩

theorem reset_mem_of_mem_allActions (h : Action.reset ∈ allActions m cs) : .reset ∈ cs := by
  obtain ⟨c, hc, _, ha⟩ := exists_of_mem_allActions h
  exact reset_mem_actions_iff.1 ha ▸ hc

theorem loadProgram_mem_of_mem_allActions {rom : List UInt8}
    (h : Action.loadProgram rom ∈ allActions m cs) : .loadProgram rom ∈ cs := by
  obtain ⟨c, hc, _, ha⟩ := exists_of_mem_allActions h
  exact loadProgram_mem_actions_iff.1 ha ▸ hc

end Command

end ChipEight
