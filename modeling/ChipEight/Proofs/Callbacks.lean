import ChipEight.Proofs.Actions
import ChipEight.Proofs.Recognition
import ChipEight.Proofs.Tick

/-!
# What displays and buzzer are told

A tick that executes an instruction shows the picture if the instruction was to change it, on every
display in the order of subscription, and then tells the buzzer; a reset shows the dark picture.
No other action makes a callback.

* `Machine.executed?`: the word that a tick executes, if it executes one;
* `Machine.machine_tick_of_executed`, `Machine.machine_tick_of_not_executed`: the machine after a
  tick that executes a word, and after one that does not;
* `Opcode.draws`: whether a word clears the picture or draws on it;
* `Machine.showings`, `Machine.buzzing`: what all displays and the buzzer are told at one time;
* `Machine.calls_tick_of_executed`, `Machine.calls_tick_of_not_executed`, `Machine.calls_reset`:
  the callbacks of ticks and resets.
-/

namespace ChipEight

open Opcode

/-! ### The word that a tick executes -/

/-- Whether a word clears the picture or draws on it. -/
def Opcode.draws (op : UInt16) : Bool := op == 0x00E0 || (group op).val == 0xD

theorem Instruction.effect_eq_redraw_iff {op : UInt16} {i : Instruction}
    (h : decode? op = some i) : i.effect = .redraw ↔ draws op = true := by
  constructor
  · intro hi
    have he := decode?_eq_some_iff.1 h
    cases i with
    | clear => cases he; rfl
    | draw v w rows => simp only [draws, he.1]; simp
    | _ => cases hi
  · intro hop
    rcases Bool.or_eq_true_iff.1 hop with h0 | hd
    · obtain rfl : op = 0x00E0 := by simpa using h0
      obtain rfl : .clear = i := Option.some.inj h
      rfl
    · have hdraw : decode? op = some (.draw (x op) (y op) (n op)) :=
        decode?_eq_some_iff.2 ⟨by simpa using hd, rfl, rfl, rfl⟩
      obtain rfl : i = .draw (x op) (y op) (n op) := Option.some.inj (h.symm.trans hdraw)
      rfl

namespace Machine

variable {η : Type} {m : Machine η} {e : Fault} {i : Instruction} {op : UInt16}

/-- The word that a tick executes, if the machine is ready and neither fetching nor executing
faults. -/
def executed? (m : Machine η) : Option UInt16 :=
  match m.status, m.state.fetch with
  | .ready, .ok op =>
      match (execute m.surroundings m.random m.state op).value with
      | .ok _ => some op
      | .error _ => none
  | _, _ => none

theorem executed?_of_not_ready (h : m.status ≠ .ready) : m.executed? = none := by
  unfold executed?
  split
  · contradiction
  · rfl

theorem executed?_of_upcoming_error (h : m.upcoming = .error e) : m.executed? = none := by
  unfold executed?
  split
  · next op hs hf =>
    have hx : execute m.surroundings m.random m.state op = ⟨⟨.error e, m.state⟩, m.random⟩ :=
      State.execute_of_upcoming_error hf h
    rw [hx]
  · rfl

theorem executed?_of_upcoming_ok (hs : m.status = .ready) (hf : m.state.fetch = .ok op)
    (h : m.upcoming = .ok i) : m.executed? = some op := by
  have hx : execute m.surroundings m.random m.state op =
      ⟨.done i.effect (i.after m.surroundings m.random m.state), i.randomAfter m.random⟩ :=
    State.execute_of_upcoming_ok hf h
  unfold executed?
  rw [hs, hf]
  simp only [hx]
  rfl

theorem executed?_eq_some_iff :
    m.executed? = some op ↔
      m.status = .ready ∧ m.state.fetch = .ok op ∧
        ∃ i, Instruction.decode? op = some i ∧ m.upcoming = .ok i := by
  constructor
  · intro h
    have hs : m.status = .ready := by
      by_contra hs
      rw [executed?_of_not_ready hs] at h
      cases h
    cases hu : m.upcoming with
    | error e => rw [executed?_of_upcoming_error hu] at h; cases h
    | ok i =>
      obtain ⟨op', hf, hd, -⟩ := State.upcoming_eq_ok_iff.1 hu
      rw [executed?_of_upcoming_ok hs hf hu] at h
      cases h
      exact ⟨hs, hf, i, hd, rfl⟩
  · rintro ⟨hs, hf, i, -, hu⟩
    exact executed?_of_upcoming_ok hs hf hu

/-- A ready machine executes no word exactly if its next tick meets a fault. -/
theorem executed?_eq_none_iff (hs : m.status = .ready) :
    m.executed? = none ↔ ∃ e, m.upcoming = .error e := by
  cases hu : m.upcoming with
  | error e => simp [executed?_of_upcoming_error hu]
  | ok i =>
    obtain ⟨op, hf, -, -⟩ := State.upcoming_eq_ok_iff.1 hu
    simp [executed?_of_upcoming_ok hs hf hu]

/-- A tick that executes a word leaves what its instruction does, with the timers counted down; its
callbacks amount to one reply of the host. -/
theorem machine_tick_of_executed (h : m.executed? = some op) :
    ∃ i r, Instruction.decode? op = some i ∧
      m.tick.machine =
        { m with
          state := (i.after m.surroundings m.random m.state).countDown
          status := i.effect.status
          random := i.randomAfter m.random }.respond r := by
  obtain ⟨hs, -, i, hd, hu⟩ := executed?_eq_some_iff.1 h
  obtain ⟨⟨r, hr⟩, -⟩ := tick_of_upcoming_ok hs hu
  exact ⟨i, r, hd, hr⟩

/-- A tick that executes nothing changes the status at most. -/
theorem machine_tick_of_not_executed (h : m.executed? = none) :
    ∃ st, m.tick.machine = { m with status := st } := by
  rcases m.machine_tick_cases with ⟨-, hm⟩ | ⟨e, -, -, hm⟩ | ⟨i, r, hs, hu, -⟩
  · exact ⟨m.status, hm⟩
  · exact ⟨.faulted e, hm⟩
  · obtain ⟨op, hf, -, -⟩ := State.upcoming_eq_ok_iff.1 hu
    rw [executed?_of_upcoming_ok hs hf hu] at h
    cases h

/-! ### Callbacks -/

/-- All displays are shown the picture, in the order of subscription. -/
def showings (m : Machine η) : List Event :=
  (List.range m.displays.length).map fun k => .shown k m.state.frame

/-- The buzzer, if there is one, is told whether the sound timer runs. -/
def buzzing (m : Machine η) : List Event :=
  if m.buzzer.isSome then [.buzzed (decide (m.state.soundTimer ≠ 0))] else []

@[simp] theorem calls_idle (m : Machine η) : m.idle.calls = [] := rfl

@[simp] theorem calls_report (m : Machine η) (r : LogRecord) : (m.report r).calls = [] := rfl

@[simp] theorem calls_countDown (m : Machine η) : m.countDown.calls = [] := rfl

@[simp] theorem calls_askStatus (m : Machine η) : m.askStatus.calls = [] := rfl

@[simp] theorem calls_accept (m : Machine η) (r : Reply η) : (m.accept r).calls = [] := by
  simp [accept, Outcome.calls, Event.isCall, List.filter_map]

theorem calls_showOn (m : Machine η) (k : ℕ) (ds : List (Display η)) :
    (m.showOn k ds).calls = (List.range' k ds.length).map fun j => .shown j m.state.frame := by
  induction ds generalizing m k with
  | nil => rfl
  | cons d ds ih =>
    simp only [showOn, Outcome.calls_andThen, ih, calls_accept]
    rfl

theorem calls_showFrame (m : Machine η) : m.showFrame.calls = m.showings := by
  unfold showFrame
  rw [Outcome.calls_andThen, calls_report, List.nil_append]
  simp only [report, calls_showOn, showings, List.range_eq_range']

theorem machine_showOn_eq_foldl (m : Machine η) (k : ℕ) (ds : List (Display η)) :
    (m.showOn k ds).machine = ds.foldl (fun n d => n.respond (d m.state.frame n.host)) m := by
  induction ds generalizing m k with
  | nil => rfl
  | cons d ds ih => exact ih (m.respond (d m.state.frame m.host)) (k + 1)

/-- To show the picture is to call each display in turn, its host being what the one before left. -/
theorem machine_showFrame (m : Machine η) :
    m.showFrame.machine = m.displays.foldl (fun n d => n.respond (d m.state.frame n.host)) m :=
  m.machine_showOn_eq_foldl 0 m.displays

theorem calls_soundBuzzer (m : Machine η) : m.soundBuzzer.calls = m.buzzing := by
  unfold soundBuzzer buzzing
  split
  · next h => simp [h]
  · next b h =>
    rw [Outcome.calls_andThen, calls_accept, h]
    rfl

theorem calls_perform (m : Machine η) (f : Effect) :
    (m.perform f).calls = if f = .redraw then m.showings else [] := by
  cases f with
  | proceed => rfl
  | redraw => exact calls_showFrame m
  | exit code => rfl

/-- The callbacks of the rest of a tick, in terms of the machine at its end. -/
theorem calls_complete (f : Effect) (h : m.status = .ready) :
    (m.complete f).calls =
      (if f = .redraw then (m.complete f).machine.showings else []) ++
        (m.complete f).machine.buzzing := by
  obtain ⟨⟨r, hr⟩, -⟩ := complete_of_ready m f h
  have hshow : (m.complete f).machine.showings = m.showings := by rw [hr]; rfl
  have hbuzz :
      (m.complete f).machine.buzzing = (m.perform f).machine.countDown.machine.buzzing := by
    obtain ⟨q, hq⟩ := (m.perform f).machine.countDown.machine.machine_soundBuzzer
    show (m.perform f).machine.countDown.machine.soundBuzzer.machine.buzzing = _
    rw [hq]; rfl
  rw [hshow, hbuzz, ← calls_perform, ← calls_soundBuzzer]
  simp [complete]

/-- A tick that executes a word shows the picture if the word draws, and then tells the buzzer. -/
theorem calls_tick_of_executed (h : m.executed? = some op) :
    m.tick.calls =
      (if draws op then m.tick.machine.showings else []) ++ m.tick.machine.buzzing := by
  obtain ⟨hs, hf, i, hd, hu⟩ := executed?_eq_some_iff.1 h
  obtain ⟨op', hf', -, ht⟩ := tick_eq_complete hs hu
  obtain rfl : op' = op := Except.ok.inj (hf'.symm.trans hf)
  rw [ht, Outcome.calls_andThen]
  simp only [← Instruction.effect_eq_redraw_iff hd]
  exact calls_complete i.effect hs

/-- A tick that executes nothing makes no callback. -/
theorem calls_tick_of_not_executed (h : m.executed? = none) : m.tick.calls = [] := by
  by_cases hs : m.status = .ready
  · obtain ⟨e, hu⟩ := (executed?_eq_none_iff hs).1 h
    refine List.filter_eq_nil_iff.2 fun x hx => ?_
    obtain ⟨record, rfl⟩ := (tick_of_upcoming_error hs hu).2.2 x (by simpa using hx)
    simp [Event.isCall]
  · rw [tick_of_not_ready hs]; rfl

theorem calls_reset (m : Machine η) : m.reset.calls = m.reset.machine.showings := by
  obtain ⟨r, hr⟩ := m.machine_reset
  rw [hr, reset, Outcome.calls_andThen, calls_report, List.nil_append, calls_showFrame]
  rfl

theorem calls_loadProgram (m : Machine η) (rom : List UInt8) : (m.loadProgram rom).calls = [] := by
  unfold loadProgram
  cases h : (m.state.loadProgram rom).value <;> simp [Outcome.calls, h, Event.isCall]

end Machine

end ChipEight
