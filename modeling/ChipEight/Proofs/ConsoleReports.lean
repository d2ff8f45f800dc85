import ChipEight.Proofs.Bells
import ChipEight.Proofs.RunReports
import ChipEight.Proofs.Transcripts

/-!
# What is reported at a console

At a console the machine reports what it does, the display that it writes each picture, and the bell
that it rings.  All of this is worded on one line, the bell is reported once for each tone that
begins, and without a display nothing is missing but what is about showing pictures.

* `Machine.AtConsole.records_tick`: what a tick reports, in order;
* `Machine.AtConsole.printable_records_runFor`,
  `Machine.AtConsole.count_toneOn_records_runFor`: what a run reports;
* `Machine.SameConsole.filter_records_runFor`: two runs that differ in their displays.
-/

namespace ChipEight

open Opcode

/-! ### What ticks report -/

/-- A writer with room that can be flushed has no failure to report. -/
theorem Writer.log_present {w : Writer} (hroom : w.room = none) (hflush : w.refusesFlush = false)
    (f : Frame) : (w.present f).2 = [.rendering] := by
  obtain ⟨accepted, room, refuses⟩ := w
  obtain rfl : room = none := hroom
  obtain rfl : refuses = false := hflush
  rfl

namespace Machine

/-- Whether the next tick rings the bell. -/
def rings (m : Machine Console) : Bool := m.tone?.any (Bell.rings m.host.sounding)

theorem records_accept {η : Type} (m : Machine η) (r : Reply η) : (m.accept r).records = r.log := by
  simp [accept, Outcome.records, List.filterMap_map, Function.comp_def, Event.record?]

/-- The bell reports that it rings. -/
theorem records_soundBuzzer {m : Machine Console} (hb : m.buzzer = some Console.bell) :
    m.soundBuzzer.records =
      if Bell.rings m.host.sounding (decide (0 < m.state.soundTimer)) then [.toneOn] else [] := by
  simp only [soundBuzzer, hb, ← UInt8.pos_iff_ne_zero, Outcome.records_andThen, records_accept]
  rfl

theorem rises_tone? (m : Machine Console) :
    Bell.rises m.host.sounding m.tone?.toList = if m.rings then 1 else 0 := by
  unfold rings
  cases m.tone? with
  | none => rfl
  | some on => rfl

/-- After it has halted, a machine does not call its buzzer. -/
theorem tones_of_le {η : Type} {m : Machine η} {a b : ℕ} (h : (m.afterTicks a).status ≠ .ready)
    (hab : a ≤ b) : m.tones b = m.tones a := by
  induction b, hab using Nat.le_induction with
  | base => rfl
  | succ b hab ih =>
    rw [tones_succ, ih, afterTicks_of_le h hab, tone?, executed?_of_not_ready h]
    exact List.append_nil _

/-- What fits into a writer is reported without a failure. -/
theorem records_showOn_display {m : Machine Console} (hroom : m.host.stdout.room = none)
    (hflush : m.host.stdout.refusesFlush = false) (k : ℕ) :
    (m.showOn k [Console.display]).records = [.rendering] := by
  simp only [showOn, Outcome.records_andThen, records_accept]
  exact congrArg (· ++ []) (Writer.log_present hroom hflush m.state.frame)

/-- The reports that a machine makes of a tick. -/
theorem forall_mem_tickRecords {η : Type} {m : Machine η} {P : LogRecord → Prop}
    (executing : ∀ op registers i pc, P (.executing op registers i pc))
    (showing : ∀ k, P (.showing k))
    (exited : ∀ code, P (.exited code)) (halting : ∀ pc e, P (.halting pc e)) :
    ∀ r ∈ m.tickRecords, P r := by
  unfold tickRecords
  split
  · rw [List.forall_mem_cons]
    refine ⟨executing .., ?_⟩
    cases m.tick.machine.status with
    | ready =>
      dsimp only
      split
      · exact List.forall_mem_singleton.2 (showing _)
      · exact List.forall_mem_nil _
    | exited code => exact List.forall_mem_singleton.2 (exited code)
    | faulted e => exact List.forall_mem_singleton.2 (halting _ e)
  · exact List.forall_mem_singleton.2 (halting ..)
  · exact List.forall_mem_nil _

namespace AtConsole

variable {m : Machine Console}

theorem records_perform (h : m.AtConsole) (f : Effect) :
    (m.perform f).records = f.records m.displays.length ++
      if f = .redraw ∧ m.displays ≠ [] then [.rendering] else [] := by
  cases f with
  | redraw =>
    have hshown : (m.showOn 0 m.displays).records =
        if m.displays ≠ [] then [.rendering] else [] := by
      rcases h.displays with hd | hd
      · rw [hd, if_neg (by simp)]
        rfl
      · rw [hd, if_pos (by simp)]
        exact records_showOn_display h.room h.flushes 0
    simp only [true_and, ← hshown]
    exact Outcome.records_andThen (m.report (.showing m.displays.length)) _
  | proceed => rfl
  | exit code => rfl

/-- The rest of a tick reports what the instruction asked for, then the picture that is written,
then the bell. -/
theorem records_complete (h : m.AtConsole) (f : Effect) (hs : m.status = .ready) :
    (m.complete f).records = f.records m.displays.length ++
      ((if f = .redraw ∧ m.displays ≠ [] then [.rendering] else []) ++
        if Bell.rings m.host.sounding (decide (0 < (m.complete f).machine.state.soundTimer)) then
          [.toneOn] else []) := by
  obtain ⟨q, hq⟩ := m.machine_perform f hs
  obtain ⟨⟨r, hr⟩, -⟩ := complete_of_ready m f hs
  let n := (m.perform f).machine.countDown.machine
  have hbuzzer : n.buzzer = some Console.bell := by
    show (m.perform f).machine.buzzer = _
    rw [hq]
    exact h.buzzer
  have hstate : n.state = (m.complete f).machine.state := by
    show (m.perform f).machine.state.countDown = _
    rw [hq, hr]
    rfl
  have hsounding : n.host.sounding = m.host.sounding := by
    show (m.perform f).machine.host.sounding = _
    rw [host_perform]
    rcases h.displays with hd | hd
    · simp [hd]
    · split <;> simp [hd, Console.display, Display.toWriter]
  have hall : (m.complete f).records =
      (m.perform f).records ++ [] ++ n.soundBuzzer.records ++ [] := by
    simp only [complete, Outcome.records_andThen]
    rfl
  rw [hall, h.records_perform, records_soundBuzzer hbuzzer, hstate, hsounding, List.append_nil,
    List.append_nil, List.append_assoc]

/-- A tick reports what the machine has to report, then the picture that is written, then the
bell. -/
theorem records_tick (h : m.AtConsole) :
    m.tick.records = m.tickRecords ++
      ((if m.picture? ≠ none ∧ m.displays ≠ [] then [.rendering] else []) ++
        if m.rings then [.toneOn] else []) := by
  cases hx : m.executed? with
  | none =>
    have hrecords : m.tick.records = m.tickRecords := by
      rw [Outcome.records, events_tick_of_not_executed hx, List.filterMap_map]
      simp [Function.comp_def, Event.record?]
    rw [hrecords]
    simp [picture?, rings, tone?, hx]
  | some op =>
    obtain ⟨hs, hf, i, hd, hu⟩ := executed?_eq_some_iff.1 hx
    obtain ⟨op', hf', -, ht⟩ := tick_eq_complete hs hu
    obtain rfl : op' = op := Except.ok.inj (hf'.symm.trans hf)
    have hready : (m.adopt ⟨.done i.effect (i.after m.surroundings m.random m.state),
        i.randomAfter m.random⟩).AtConsole :=
      ⟨h.displays, h.buzzer, h.keys, h.calm, h.room, h.flushes⟩
    have hpicture : m.picture? ≠ none ↔ i.effect = .redraw := by
      rw [Instruction.effect_eq_redraw_iff hd, picture?, hx]
      simp
    have hrings : m.rings =
        Bell.rings m.host.sounding (decide (0 < m.tick.machine.state.soundTimer)) := by
      rw [rings, tone?, hx]
      rfl
    have hrecords := hready.records_complete i.effect hs
    rw [tickRecords_of_upcoming_ok hs hu hf, hrings, ht, Outcome.records_andThen]
    simp only [hpicture]
    exact congrArg _ hrecords

/-- The report of the bell comes last, if there is one. -/
theorem exists_records_tick (h : m.AtConsole) :
    ∃ rs, .toneOn ∉ rs ∧ m.tick.records = rs ++ if m.rings then [.toneOn] else [] := by
  refine ⟨_, ?_, by rw [h.records_tick, ← List.append_assoc]⟩
  rw [List.mem_append, not_or]
  constructor
  · intro hmem
    exact forall_mem_tickRecords (P := (· ≠ .toneOn)) (by simp) (by simp) (by simp) (by simp) _ hmem
      rfl
  · split <;> simp

theorem count_toneOn_records_tick (h : m.AtConsole) :
    m.tick.records.count .toneOn = if m.rings then 1 else 0 := by
  obtain ⟨rs, hrs, heq⟩ := h.exists_records_tick
  rw [heq, List.count_append, List.count_eq_zero_of_not_mem hrs, Nat.zero_add]
  split <;> rfl

/-- Nothing that is reported of a tick at a console repeats what a display says. -/
theorem printable_records_tick (h : m.AtConsole) :
    ∀ r ∈ m.tick.records, Text.Printable r.message := by
  intro r hr
  refine LogRecord.printable_message fun reason => ?_
  rw [h.records_tick, List.mem_append, List.mem_append] at hr
  rcases hr with hr | hr | hr
  · exact forall_mem_tickRecords (P := (· ≠ .renderFailed reason)) (by simp) (by simp) (by simp)
      (by simp) r hr
  · split at hr
    · rw [List.mem_singleton.1 hr]
      simp
    · cases hr
  · split at hr
    · rw [List.mem_singleton.1 hr]
      simp
    · cases hr

/-! ### What runs report -/

/-- A run leaves out no tick that would have called the buzzer. -/
theorem tones_ticksUntil (h : m.AtConsole) (n : ℕ) :
    m.tones (m.beginRun.ticksUntil Progress.isOver n) = m.tones n := by
  have hle := m.beginRun.ticksUntil_le Progress.isOver n
  obtain ⟨-, hend⟩ := m.beginRun.ticksUntil_spec Progress.isOver n
  generalize m.beginRun.ticksUntil Progress.isOver n = k at hle hend
  rcases hend with rfl | hover
  · rfl
  · rw [isOver_beginRun_advanceBy, h.unstopped k] at hover
    exact (tones_of_le (hover.resolve_right Bool.false_ne_true).2 hle).symm

theorem printable_records_runFor (h : m.AtConsole) (n : ℕ) :
    ∀ r ∈ (m.runFor n).records, Text.Printable r.message := by
  have hclosing : ∀ k, ∀ r ∈ LogRecord.closing k (m.runFor n).value, Text.Printable r.message := by
    intro k r hr
    cases hv : (m.runFor n).value with
    | ok st =>
      rw [hv] at hr
      rw [List.mem_singleton.1 hr]
      exact LogRecord.printable_message (by simp)
    | error e =>
      rw [hv] at hr
      cases hr
  rw [records_runFor]
  refine List.forall_mem_append.2 ⟨List.forall_mem_cons.2 ⟨?_, fun r hr => ?_⟩, hclosing _⟩
  · exact LogRecord.printable_message (by simp)
  · obtain ⟨j, -, hj⟩ := List.mem_flatMap.1 hr
    exact (h.afterTicks j).printable_records_tick r hj

/-- A run reports each of the tones that begin in its ticks. -/
theorem count_toneOn_records_runFor (h : m.AtConsole) (n : ℕ) :
    (m.runFor n).records.count .toneOn = Bell.rises m.host.sounding (m.tones n) := by
  have hticks : ∀ k, ((List.range k).flatMap fun j => (m.afterTicks j).tick.records).count .toneOn =
      Bell.rises m.host.sounding (m.tones k) := by
    intro k
    induction k with
    | zero => rfl
    | succ k ih =>
      rw [List.range_succ, List.flatMap_append, List.flatMap_singleton, List.count_append, ih,
        (h.afterTicks k).count_toneOn_records_tick, tones_succ, Bell.rises_append,
        ← h.sounding_afterTicks, rises_tone?]
  have hclosing : ∀ k, (LogRecord.closing k (m.runFor n).value).count .toneOn = 0 := fun k => by
    cases (m.runFor n).value <;> rfl
  rw [records_runFor, List.cons_append, List.count_cons_of_ne (by simp), List.count_append, hticks,
    hclosing, Nat.add_zero, h.tones_ticksUntil]

end AtConsole

end Machine

/-! ### Consoles with different displays -/

namespace Machine

/-- Twins report the same of a tick that leaves them twins, but for how many displays there are. -/
theorem Twins.filter_tickRecords {η η' : Type} {m : Machine η} {n : Machine η'} (h : m.Twins n)
    (hnext : m.tick.machine.Twins n.tick.machine) :
    n.tickRecords.filter (!·.isPictorial) = m.tickRecords.filter (!·.isPictorial) := by
  have hdrawn : ∀ (b : Bool) (k : ℕ), (if b then [LogRecord.showing k] else []).filter
      (!·.isPictorial) = [] := by
    intro b k
    cases b <;> rfl
  unfold tickRecords
  rw [h.status, h.state]
  split
  · rw [hnext.status, List.filter_cons, List.filter_cons]
    cases m.tick.machine.status with
    | ready => simp only [hdrawn]
    | exited code => rfl
    | faulted e => rfl
  · rfl
  · rfl

namespace SameConsole

variable {m n : Machine Console} {t : ℕ}

theorem filter_records_tick (h : m.SameConsole n) (hm : m.AtConsole) (hn : n.AtConsole)
    (hnext : m.tick.machine.Twins n.tick.machine) :
    n.tick.records.filter (!·.isPictorial) = m.tick.records.filter (!·.isPictorial) := by
  have hrings : n.rings = m.rings := by
    rw [rings, rings, tone?, tone?, h.twins.executed?_eq, hnext.state, h.sounding]
  have hrendered : ∀ (P : Prop) [Decidable P], (if P then [LogRecord.rendering] else []).filter
      (!·.isPictorial) = [] := by
    intro P _
    split <;> rfl
  rw [hn.records_tick, hm.records_tick, List.filter_append, List.filter_append, List.filter_append,
    List.filter_append, h.twins.filter_tickRecords hnext, hrendered, hrendered, hrings]

/-- Runs on consoles that differ in their displays report the same but for what is about showing
pictures. -/
theorem filter_records_runFor (hsame : ∀ j ≤ t, (m.afterTicks j).SameConsole (n.afterTicks j))
    (hm : m.AtConsole) (hn : n.AtConsole) (hrate : n.config.tickRate = m.config.tickRate)
    (hvalue : (n.runFor t).value = (m.runFor t).value) :
    (n.runFor t).records.filter (!·.isPictorial) =
      (m.runFor t).records.filter (!·.isPictorial) := by
  have hcount : n.beginRun.ticksUntil Progress.isOver t =
      m.beginRun.ticksUntil Progress.isOver t := by
    refine Progress.ticksUntil_congr fun j hj => ?_
    rw [Bool.eq_iff_iff, isOver_beginRun_advanceBy, isOver_beginRun_advanceBy,
      (hsame j hj.le).twins.status, hm.unstopped j, hn.unstopped j]
  have hle := m.beginRun.ticksUntil_le Progress.isOver t
  rw [records_runFor, records_runFor, hcount, hrate, hvalue, List.filter_append, List.filter_append,
    List.filter_cons, List.filter_cons, List.filter_flatMap, List.filter_flatMap]
  refine congrArg (fun rs => LogRecord.running m.config.tickRate :: rs ++ _) ?_
  refine List.flatMap_congr fun j hj => ?_
  have hlt : j < t := (List.mem_range.1 hj).trans_le hle
  refine (hsame j hlt.le).filter_records_tick (hm.afterTicks j) (hn.afterTicks j) ?_
  have hnext := (hsame (j + 1) hlt).twins
  rwa [m.afterTicks_succ, n.afterTicks_succ] at hnext

end SameConsole

end Machine

end ChipEight
