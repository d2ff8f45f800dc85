import ChipEight.Proofs.Callbacks
import ChipEight.Proofs.Faults

/-!
# The words executed in a history

Of everything that can be done to a machine only a tick executes a word, and only if the machine is
ready and nothing faults.  A history of actions thus has a list of executions, each the machine
before such a tick and its word, and what the history does to timers, buzzer and random source can
be said of that list.

* `Execution`, `Action.executions`, `Command.executions`;
* `Action.executions_split`: an execution divides the actions into those before and those after it;
* `Machine.executed?_eq_none_iff_fault`: the ticks that execute nothing;
* `Action.state_perform_of_no_execution`, `Action.random_perform_of_no_execution`: an action that
  executes nothing and is no reset changes the memory at most, and takes no random word;
* `Command.before_executions_ticks`: ticks in a row that each execute a word.
-/

namespace ChipEight

/-- A tick that executes a word: the machine before it, and the word. -/
structure Execution (η : Type) where
  before : Machine η
  opcode : UInt16

/-- The machine after the tick. -/
def Execution.after {η : Type} (e : Execution η) : Machine η := e.before.tick.machine

/-! ### Ticks -/

namespace Machine

variable {η : Type} {m : Machine η} {op : UInt16}

/-- A tick executes nothing exactly if the machine is not ready or the tick faults. -/
theorem executed?_eq_none_iff_fault :
    m.executed? = none ↔ m.status ≠ .ready ∨ ∃ e, m.tick.value = .error e := by
  by_cases hs : m.status = .ready
  · simp [hs, executed?_eq_none_iff hs, value_tick_eq_error_iff hs]
  · simp [hs, executed?_of_not_ready hs]

end Machine

/-! ### Actions -/

namespace Action

variable {η : Type} {m : Machine η} {a : Action η} {as bs : List (Action η)} {e : Execution η}

/-- The execution that an action is, if it is one. -/
def execution? (m : Machine η) : Action η → Option (Execution η)
  | tick => m.executed?.map fun op => ⟨m, op⟩
  | _ => none

/-- The executions among actions, in order. -/
def executions (m : Machine η) : List (Action η) → List (Execution η)
  | [] => []
  | a :: as => (a.execution? m).toList ++ executions (a.perform m).machine as

theorem execution?_eq_some_iff :
    a.execution? m = some e ↔ a = .tick ∧ e.before = m ∧ m.executed? = some e.opcode := by
  obtain ⟨n, op⟩ := e
  cases a with
  | tick =>
    simp only [execution?, Option.map_eq_some_iff, Execution.mk.injEq, true_and]
    constructor
    · rintro ⟨op', h, rfl, rfl⟩
      exact ⟨rfl, h⟩
    · rintro ⟨rfl, h⟩
      exact ⟨op, h, rfl, rfl⟩
  | _ => simp [execution?]

theorem execution?_of_ne_tick (h : a ≠ .tick) (m : Machine η) : a.execution? m = none := by
  cases a with
  | tick => exact absurd rfl h
  | _ => rfl

theorem execution?_tick_of_fault (h : m.status ≠ .ready ∨ ∃ e, m.tick.value = .error e) :
    Action.tick.execution? m = none :=
  Option.map_eq_none_iff.2 (Machine.executed?_eq_none_iff_fault.2 h)

@[simp] theorem executions_nil (m : Machine η) : executions m [] = [] := rfl

theorem executions_cons_of_none (h : a.execution? m = none) (as : List (Action η)) :
    executions m (a :: as) = executions (a.perform m).machine as := by
  simp [executions, h]

theorem executions_cons_of_some (h : a.execution? m = some e) (as : List (Action η)) :
    executions m (a :: as) = e :: executions e.after as := by
  obtain ⟨rfl, rfl, -⟩ := execution?_eq_some_iff.1 h
  simp only [executions, h, Option.toList_some, List.singleton_append]
  rfl

theorem executed?_of_mem_executions (h : e ∈ executions m as) :
    e.before.executed? = some e.opcode := by
  induction as generalizing m with
  | nil => cases h
  | cons a as ih =>
    cases ha : a.execution? m with
    | none =>
      rw [executions_cons_of_none ha] at h
      exact ih h
    | some e' =>
      rw [executions_cons_of_some ha] at h
      rcases List.mem_cons.1 h with rfl | h
      · obtain ⟨-, hb, hx⟩ := execution?_eq_some_iff.1 ha
        exact hb ▸ hx
      · exact ih h

/-- An execution divides the actions into those before it and those after it. -/
theorem executions_split {es fs : List (Execution η)} (h : executions m as = es ++ e :: fs) :
    ∃ before after, as = before ++ .tick :: after ∧ executions m before = es ∧
      (performAll m before).machine = e.before ∧ executions e.after after = fs := by
  induction as generalizing m es with
  | nil => simp at h
  | cons a as ih =>
    cases ha : a.execution? m with
    | none =>
      rw [executions_cons_of_none ha] at h
      obtain ⟨before, after, rfl, hes, hm, hfs⟩ := ih h
      exact ⟨a :: before, after, rfl, (executions_cons_of_none ha before).trans hes, hm, hfs⟩
    | some e' =>
      rw [executions_cons_of_some ha] at h
      obtain ⟨rfl, rfl, -⟩ := execution?_eq_some_iff.1 ha
      cases es with
      | nil =>
        obtain ⟨rfl, rfl⟩ := List.cons.inj h
        exact ⟨[], as, rfl, rfl, rfl, rfl⟩
      | cons e'' es =>
        obtain ⟨rfl, htail⟩ := List.cons.inj h
        obtain ⟨before, after, rfl, hes, hm, hfs⟩ := ih htail
        exact ⟨.tick :: before, after, rfl,
          (executions_cons_of_some ha before).trans (congrArg _ hes), hm, hfs⟩

/-! ### Actions that execute nothing -/

theorem state_perform_of_no_execution (hr : a ≠ .reset) (h : a.execution? m = none) :
    (a.perform m).machine.state =
      { m.state with memory := (a.perform m).machine.state.memory } := by
  cases a with
  | tick =>
    obtain ⟨st, hm⟩ := Machine.machine_tick_of_not_executed (Option.map_eq_none_iff.1 h)
    show m.tick.machine.state = { m.state with memory := m.tick.machine.state.memory }
    rw [hm]
  | reset => exact absurd rfl hr
  | loadProgram rom =>
    obtain ⟨mem, hm⟩ := m.exists_machine_loadProgram rom
    show (m.loadProgram rom).machine.state =
      { m.state with memory := (m.loadProgram rom).machine.state.memory }
    rw [hm]
  | _ => rfl

theorem random_perform_of_no_execution (h : a.execution? m = none) :
    (a.perform m).machine.random = m.random := by
  cases a with
  | tick =>
    obtain ⟨st, hm⟩ := Machine.machine_tick_of_not_executed (Option.map_eq_none_iff.1 h)
    show m.tick.machine.random = m.random
    rw [hm]
  | reset =>
    obtain ⟨r, hm⟩ := m.machine_reset
    show m.reset.machine.random = m.random
    rw [hm]
    rfl
  | _ => rfl

/-! ### Ticks in a row -/

theorem machine_performAll_ticks (m : Machine η) (k : ℕ) :
    (performAll m (List.replicate k .tick)).machine = m.afterTicks k := by
  induction k generalizing m with
  | zero => rfl
  | succ k ih => exact ih m.tick.machine

theorem executions_ticks (m : Machine η) (k : ℕ) :
    executions m (List.replicate k .tick) =
      (List.range k).filterMap fun i =>
        (m.afterTicks i).executed?.map fun op => ⟨m.afterTicks i, op⟩ := by
  induction k generalizing m with
  | zero => rfl
  | succ k ih =>
    rw [List.replicate_succ, executions, List.range_succ_eq_map, List.filterMap_cons,
      List.filterMap_map]
    have htail : executions (Action.tick.perform m).machine (List.replicate k .tick) =
        (List.range k).filterMap ((fun i =>
          (m.afterTicks i).executed?.map fun op => (⟨m.afterTicks i, op⟩ : Execution η)) ∘
            Nat.succ) := ih m.tick.machine
    rw [htail]
    cases hx : m.executed? with
    | none => simp [execution?, Machine.afterTicks, hx]
    | some op => simp [execution?, Machine.afterTicks, hx]

end Action

/-! ### Commands -/

namespace Command

variable {η : Type}

/-- The executions among commands, in order. -/
def executions (m : Machine η) (cs : List (Command η)) : List (Execution η) :=
  Action.executions m (allActions m cs)

theorem exists_performAll?_ticks (m : Machine η) (k : ℕ) :
    ∃ o, performAll? m (List.replicate k .tick) = some o := by
  induction k generalizing m with
  | zero => exact ⟨_, rfl⟩
  | succ k ih =>
    obtain ⟨o, ho⟩ := ih m.tick.machine
    exact ⟨_, performAll?_cons_eq_some_iff.2 ⟨_, o, rfl, ho, rfl⟩⟩

theorem allActions_ticks (m : Machine η) (k : ℕ) :
    allActions m (List.replicate k .tick) = List.replicate k .tick := by
  induction k generalizing m with
  | zero => rfl
  | succ k ih =>
    rw [List.replicate_succ, allActions_cons rfl]
    exact congrArg _ (ih m.tick.machine)

/-- Ticks in a row that each execute a word are as many executions. -/
theorem before_executions_ticks {m : Machine η} {k : ℕ}
    (h : ∀ i < k, (m.afterTicks i).executed? ≠ none) :
    (executions m (List.replicate k .tick)).map Execution.before =
      (List.range k).map m.afterTicks := by
  rw [executions, allActions_ticks, Action.executions_ticks, List.map_filterMap,
    ← List.filterMap_eq_map]
  refine List.filterMap_congr fun i hi => ?_
  obtain ⟨op, hop⟩ := Option.ne_none_iff_exists'.1 (h i (List.mem_range.1 hi))
  simp [hop]

end Command

end ChipEight
