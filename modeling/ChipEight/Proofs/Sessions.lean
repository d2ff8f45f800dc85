import ChipEight.Proofs.ConsoleReports

/-!
# Sessions are runs

A session takes what its console has received after each tick, so that it begins each tick with an
empty console.  The machine is none the wiser: its ticks, what they report and what they return are
those of a run with the same bound, and the pieces taken make up what such a run leaves on its
console.

* `Machine.AtConsole.machine_tick_drained`, `Machine.AtConsole.transcript_tick`: a tick on an empty
  console;
* `Session.Tracks`, `Session.Tracks.advance`: a session and the run that it makes;
* `Outcome.ending`, `Session.runWithin?_start`: a session is a run of its machine, with a
  transcript;
* `Session.follow_add`, `Session.exists_follow_of_main?`: the ticks as they are made in the course
  of time.
-/

namespace ChipEight

/-! ### Ticks on an empty console -/

namespace Machine

theorem twins_drained (m : Machine Console) : m.Twins m.drained := ⟨rfl, rfl, rfl⟩

/-- Twins with as many displays report the same of a tick that leaves them twins. -/
theorem Twins.tickRecords_eq {η η' : Type} {m : Machine η} {n : Machine η'} (h : m.Twins n)
    (hnext : m.tick.machine.Twins n.tick.machine) (hd : n.displays.length = m.displays.length) :
    n.tickRecords = m.tickRecords := by
  simp only [tickRecords, h.status, h.state, hnext.status, hd]

namespace AtConsole

variable {m : Machine Console}

theorem drained (h : m.AtConsole) : m.drained.AtConsole where
  displays := h.displays
  buzzer := h.buzzer
  keys := h.keys
  calm := h.calm
  room := by
    show m.host.stdout.room.map _ = none
    rw [h.room]
    rfl
  flushes := h.flushes

/-- What is left of a console that has been drained. -/
theorem host_drained (h : m.AtConsole) :
    m.drained.host = { keypad := m.host.keypad, sounding := m.host.sounding } := by
  have hstdout : m.host.stdout.drained = {} := by
    rw [Writer.drained, h.room, h.flushes]
    rfl
  show m.host.drained = _
  rw [Console.drained, hstdout]

/-- A machine does not notice that its console is drained. -/
theorem twins_tick_drained (h : m.AtConsole) : m.tick.machine.Twins m.drained.tick.machine := by
  have hsurroundings : m.drained.surroundings = m.surroundings := by
    rw [surroundings, surroundings, h.drained.keys, h.keys]
    rfl
  refine m.twins_drained.tick fun op _ i _ => ?_
  rw [hsurroundings]
  rfl

theorem tone?_drained (h : m.AtConsole) : m.drained.tone? = m.tone? := by
  rw [tone?, tone?, m.twins_drained.executed?_eq, h.twins_tick_drained.state]

theorem picture?_drained (h : m.AtConsole) : m.drained.picture? = m.picture? := by
  rw [picture?, picture?, m.twins_drained.executed?_eq, h.twins_tick_drained.state]

/-- A tick leaves the same machine if its console was drained before, once it is drained again. -/
theorem machine_tick_drained (h : m.AtConsole) :
    m.drained.tick.machine.drained = m.tick.machine.drained := by
  have htwins := h.twins_tick_drained
  have hbuilt := m.builtAlike_tick
  have hbuilt' := m.drained.builtAlike_tick
  ext1
  · exact hbuilt'.config.trans hbuilt.config.symm
  · exact htwins.state
  · exact htwins.status
  · exact m.twins_drained.random_tick rfl
  · exact h.drained.tick.calm.trans h.tick.calm.symm
  · exact hbuilt'.displays.trans hbuilt.displays.symm
  · exact hbuilt'.buzzer.trans hbuilt.buzzer.symm
  · exact hbuilt'.keys.trans hbuilt.keys.symm
  · rw [h.drained.tick.host_drained, h.tick.host_drained, h.drained.keypad_tick, h.keypad_tick,
      h.drained.sounding_tick, h.sounding_tick, h.tone?_drained]
    rfl

theorem value_tick_drained (h : m.AtConsole) : m.drained.tick.value = m.tick.value :=
  (Twins.ticksAlike h.twins_tick_drained).value

theorem records_tick_drained (h : m.AtConsole) : m.drained.tick.records = m.tick.records := by
  have hrings : m.drained.rings = m.rings := by
    rw [rings, rings, h.tone?_drained]
    rfl
  rw [h.drained.records_tick, h.records_tick, hrings, h.picture?_drained,
    m.twins_drained.tickRecords_eq h.twins_tick_drained rfl]
  rfl

/-- What a tick writes comes after what has been written before. -/
theorem accepted_tick_drained (h : m.AtConsole) :
    m.tick.machine.host.stdout.accepted =
      m.host.stdout.accepted ++ m.drained.tick.machine.host.stdout.accepted := by
  have hempty : m.drained.host.stdout.accepted = .empty := rfl
  rw [h.drained.accepted_tick, h.accepted_tick, h.picture?_drained, hempty, ByteArray.empty_append]
  rfl

/-- What an empty console receives on standard error in a tick. -/
theorem stderr_tick_drained (h : m.AtConsole) :
    m.drained.tick.machine.host.stderr = if m.rings then Bell.character.toString else "" := by
  have hempty : m.drained.host.stderr = "" := rfl
  have hsounding : m.drained.host.sounding = m.host.sounding := rfl
  rw [h.drained.stderr_tick, h.tone?_drained, hempty, hsounding, String.empty_append, rings]
  cases m.tone? with
  | none => rfl
  | some on => cases hr : Bell.rings m.host.sounding on <;> simp [Bell.rises, Bell.rung, hr]

/-- The lines and bells of a tick. -/
theorem transcript_tick (h : m.AtConsole) (l : Logger) (n : ℕ) :
    l.transcript n m.tick.records =
      l.text n m.drained.tick.records ++ m.drained.tick.machine.host.stderr := by
  obtain ⟨rs, hrs, heq⟩ := h.exists_records_tick
  rw [h.records_tick_drained, h.stderr_tick_drained, heq]
  split
  · exact Logger.transcript_append_toneOn n hrs
  · rw [List.append_nil, String.append_empty, Logger.transcript_of_notMem n hrs]

end AtConsole

end Machine

/-! ### A session and its run -/

/-- A tick is counted unless it faults. -/
theorem Progress.ticks_advance_eq {η : Type} (p : Progress η) :
    p.advance.ticks = match p.outcome.machine.tick.value with
      | .ok _ => p.ticks + 1
      | .error _ => p.ticks := by
  obtain ⟨o, k, b⟩ := p
  simp only [advance]
  split <;> next h => rw [Outcome.value_andThen] at h; simp only [h]

theorem Progress.records_finish {η : Type} (p : Progress η) :
    p.finish.records = p.outcome.records ++ LogRecord.closing p.ticks p.outcome.value := by
  unfold finish
  rw [Outcome.records_andThen]
  cases p.outcome.value with
  | ok st => rfl
  | error e => rfl

/-- What a session leaves once its run, in front of which `before` has been reported, has come to
an end: the exit code, what has been written, and the lines and bells for all that has been
reported, with the line for a fault at the end. -/
def Outcome.ending (l : Logger) (before : List LogRecord) (o : Outcome Console Machine.Result) :
    Ending :=
  let out := o.machine.host.stdout.accepted
  match o.value with
  | .ok st =>
      .exited (Session.exitCode st) out (l.transcript 0 (before ++ o.records ++ [.finished st]))
  | .error e =>
      .exited 1 out (l.transcript 0 (before ++ o.records) ++ Session.errorLine (.fault e))

namespace Session

/-- A session has made the ticks of a run whose console has never been drained, and has taken what
this console holds, together with the lines for what has been reported in the course of the run and,
`before`, in front of it. -/
structure Tracks (l : Logger) (before : List LogRecord) (s : Session) (p : Progress Console) :
    Prop where
  atConsole : p.outcome.machine.AtConsole
  machine : s.progress.outcome.machine = p.outcome.machine.drained
  events : s.progress.outcome.events = #[]
  value : s.progress.outcome.value = p.outcome.value
  ticks : s.progress.ticks = p.ticks
  halted : s.progress.halted = p.halted
  stdout : s.output.stdout = p.outcome.machine.host.stdout.accepted
  stderr : s.output.stderr = l.transcript 0 (before ++ p.outcome.records)
  logged : s.output.logged = (before ++ p.outcome.records).length

variable {l : Logger} {before : List LogRecord} {s : Session} {p : Progress Console} {n : ℕ}

namespace Tracks

theorem isOver (h : s.Tracks l before p) (bound : Option ℕ) :
    s.isOver bound = (p.isOver || bound.any (· ≤ p.ticks)) := by
  have hstop : s.progress.outcome.machine.stopRequested = p.outcome.machine.stopRequested := by
    rw [h.machine]
    rfl
  rw [Session.isOver, Progress.isOver, Progress.isOver, h.halted, hstop, h.ticks]

/-- A tick of the session is a tick of the run. -/
theorem advance (h : s.Tracks l before p) : (s.advance l).Tracks l before p.advance := by
  have hm := h.atConsole
  have htick : s.progress.advance.outcome = s.progress.outcome.andThen Machine.tick :=
    s.progress.outcome_advance
  have hvalue : s.progress.outcome.machine.tick.value = p.outcome.machine.tick.value := by
    rw [h.machine, hm.value_tick_drained]
  have hrecords : s.progress.advance.outcome.records = p.outcome.machine.tick.records := by
    have hnone : s.progress.outcome.records = [] := by
      rw [Outcome.records, h.events]
      rfl
    rw [htick, Outcome.records_andThen, hnone, h.machine, hm.records_tick_drained, List.nil_append]
  have hall : before ++ p.advance.outcome.records =
      (before ++ p.outcome.records) ++ p.outcome.machine.tick.records := by
    rw [Progress.outcome_advance, Outcome.records_andThen, List.append_assoc]
  have hhost : s.progress.advance.outcome.machine.host =
      p.outcome.machine.drained.tick.machine.host := by
    rw [htick, Outcome.machine_andThen, h.machine]
  constructor
  · rw [Progress.outcome_advance]
    exact hm.tick
  · show s.progress.advance.outcome.machine.drained = _
    rw [htick, Outcome.machine_andThen, h.machine, hm.machine_tick_drained,
      Progress.outcome_advance, Outcome.machine_andThen]
  · rfl
  · show s.progress.advance.outcome.value = _
    rw [htick, Progress.outcome_advance, Outcome.value_andThen, Outcome.value_andThen, hvalue]
  · show s.progress.advance.ticks = _
    rw [Progress.ticks_advance_eq, Progress.ticks_advance_eq, hvalue, h.ticks]
  · show s.progress.advance.halted = _
    rw [Bool.eq_iff_iff, Progress.halted_advance, Progress.halted_advance, hvalue]
  · show s.output.stdout ++ s.progress.advance.outcome.machine.host.stdout.accepted = _
    rw [hhost, h.stdout, Progress.outcome_advance, Outcome.machine_andThen,
      ← hm.accepted_tick_drained]
  · show s.output.stderr ++ l.text s.output.logged s.progress.advance.outcome.records ++
      s.progress.advance.outcome.machine.host.stderr = _
    rw [hhost, hrecords, hall, Logger.transcript_append, Nat.zero_add, hm.transcript_tick, h.stderr,
      h.logged, hm.records_tick_drained, String.append_assoc]
  · show s.output.logged + s.progress.advance.outcome.records.length = _
    rw [hrecords, hall, List.length_append, h.logged]

/-- A session with a bound makes the ticks of a run with that budget. -/
theorem exists_runWithin? {b : ℕ} (h : s.Tracks l before p)
    (hb : p.isOver = true ∨ p.ticks + n = b) :
    ∃ s', s.runWithin? l (some b) n = some s' ∧ s'.Tracks l before (p.runFor n) := by
  induction n generalizing s p with
  | zero =>
    have hover : s.isOver (some b) = true := by
      rw [h.isOver, Bool.or_eq_true]
      exact hb.imp_right fun hticks => decide_eq_true hticks.ge
    exact ⟨s, if_pos hover, h⟩
  | succ n ih =>
    by_cases hover : p.isOver = true
    · refine ⟨s, if_pos (by rw [h.isOver, hover]; rfl), ?_⟩
      rwa [Progress.runFor_of_isOver hover]
    · have hticks : p.ticks + (n + 1) = b := hb.resolve_left hover
      have hgoes : ¬ s.isOver (some b) = true := by
        rw [h.isOver, Bool.or_eq_true, not_or]
        exact ⟨hover, by simp; omega⟩
      rw [runWithin?, if_neg hgoes, Progress.runFor_succ, if_neg hover]
      refine ih h.advance ?_
      -- a tick that is not counted has faulted
      rw [Progress.isOver_eq_true_iff, Progress.halted_advance, Progress.ticks_advance_eq]
      cases p.outcome.machine.tick.value with
      | ok st => exact .inr (by simp only; omega)
      | error e => exact .inl (.inl (by simp))

/-- A session without a bound is over when its run is. -/
theorem runWithin?_unbounded (h : s.Tracks l before p) :
    (if (p.runFor n).isOver then
      ∃ s', s.runWithin? l none n = some s' ∧ s'.Tracks l before (p.runFor n)
    else s.runWithin? l none n = none) := by
  induction n generalizing s p with
  | zero =>
    rw [runWithin?, h.isOver, Option.any_none, Bool.or_false, Progress.runFor_zero]
    split
    · exact ⟨s, rfl, h⟩
    · rfl
  | succ n ih =>
    rw [runWithin?, h.isOver, Option.any_none, Bool.or_false]
    by_cases hover : p.isOver = true
    · rw [if_pos hover, Progress.runFor_of_isOver hover, if_pos hover]
      exact ⟨s, rfl, h⟩
    · rw [if_neg hover, Progress.runFor_succ, if_neg hover]
      exact ih h.advance

/-- What a session has passed on when its run has come to an end. -/
theorem collect_finish (h : s.Tracks l before p) :
    s.output.collect l s.progress.finish =
      { stdout := p.finish.machine.host.stdout.accepted
        stderr := l.transcript 0 (before ++ p.finish.records)
        logged := (before ++ p.finish.records).length } := by
  have hempty : s.progress.finish.machine.host = p.outcome.machine.drained.host := by
    show s.progress.outcome.machine.host = _
    rw [h.machine]
  have hrecords : s.progress.finish.records = LogRecord.closing p.ticks p.outcome.value := by
    have hnone : s.progress.outcome.records = [] := by
      rw [Outcome.records, h.events]
      rfl
    rw [Progress.records_finish, hnone, h.ticks, h.value, List.nil_append]
  have htone : .toneOn ∉ LogRecord.closing p.ticks p.outcome.value := by
    cases p.outcome.value <;> simp [LogRecord.closing]
  have hstdout : s.output.stdout ++ ByteArray.empty = p.outcome.machine.host.stdout.accepted := by
    rw [ByteArray.append_empty, h.stdout]
  rw [Output.collect, hempty, hrecords, Progress.records_finish, ← List.append_assoc,
    Logger.transcript_append, Nat.zero_add, Logger.transcript_of_notMem _ htone, h.stderr, h.logged,
    @List.length_append _ (before ++ _)]
  exact congrArg₂ (fun out err => Output.mk out err _) hstdout String.append_empty

/-- The end of a session is that of its run. -/
theorem close_eq (h : s.Tracks l before p) : s.close l = p.finish.ending l before := by
  have hvalue : s.progress.finish.value = p.finish.value := h.value
  simp only [close, Outcome.ending, h.collect_finish, hvalue]
  cases p.finish.value with
  | ok st =>
    have htone : LogRecord.toneOn ∉ [LogRecord.finished st] := by simp
    simp only [Logger.transcript_append l 0 (before ++ p.finish.records), Nat.zero_add,
      Logger.transcript_of_notMem _ htone]
  | error e => rfl

end Tracks

/-- A session begins as its run does. -/
theorem tracks_start {o : Outcome Console Unit} (h : o.machine.AtConsole)
    (hempty : o.machine.host.stderr = "") (htone : .toneOn ∉ o.records) :
    (start l o).Tracks l o.records o.machine.beginRun := by
  have hbegin : o.machine.beginRun.outcome.records = [.running o.machine.config.tickRate] := rfl
  have hrecords : (o.andThen fun _ => o.machine.beginRun.outcome).records =
      o.records ++ o.machine.beginRun.outcome.records := Outcome.records_andThen o _
  constructor
  · exact h
  · rfl
  · rfl
  · rfl
  · rfl
  · rfl
  · exact ByteArray.empty_append
  · show "" ++ l.text 0 (o.andThen fun _ => o.machine.beginRun.outcome).records ++
      o.machine.host.stderr = _
    rw [hempty, hrecords, hbegin, String.empty_append, String.append_empty,
      Logger.transcript_of_notMem]
    simpa using htone
  · show 0 + (o.andThen fun _ => o.machine.beginRun.outcome).records.length = _
    rw [hrecords, Nat.zero_add]

end Session

namespace Machine

/-- A run with a budget, or one without that is followed for `fuel` ticks. -/
def run? {η : Type} (m : Machine η) (budget : Option ℕ) (fuel : ℕ) : Option (Outcome η Result) :=
  match budget with
  | some b => some (m.runFor b)
  | none => m.runWithin? fuel

end Machine

namespace Session

variable {l : Logger} {options : Options} {o : Outcome Console Unit} {words : List String}
  {files : String → Except ReadError (List UInt8)} {entropy : ChaCha.Key} {n : ℕ}

/-- The run of a session ends as a run of its machine does. -/
theorem runWithin?_start (h : o.machine.AtConsole) (hempty : o.machine.host.stderr = "")
    (htone : .toneOn ∉ o.records) (bound : Option ℕ) (fuel : ℕ) :
    ((start l o).runWithin? l bound (bound.getD fuel)).map (close l) =
      (o.machine.run? bound fuel).map (Outcome.ending l o.records) := by
  have hstart := tracks_start (l := l) h hempty htone
  cases bound with
  | some b =>
    obtain ⟨s, hs, htracks⟩ := hstart.exists_runWithin? (n := b) (.inr (Nat.zero_add b))
    rw [Option.getD_some, hs, Machine.run?]
    exact congrArg some htracks.close_eq
  | none =>
    have hrun := hstart.runWithin?_unbounded (n := fuel)
    rw [Option.getD_none, Machine.run?, Machine.runWithin?]
    by_cases hover : (o.machine.beginRun.runFor fuel).isOver = true
    · rw [if_pos hover] at hrun
      obtain ⟨s, hs, htracks⟩ := hrun
      simp only [hs, hover, if_true, Option.map_some, htracks.close_eq]
    · rw [if_neg hover] at hrun
      simp only [hrun, hover, Option.map_none]
      rfl

end Session

/-! ### Ticks in the course of time -/

/-- What has been passed on, and more of it. -/
def Output.append (w w' : Output) : Output :=
  { stdout := w.stdout ++ w'.stdout, stderr := w.stderr ++ w'.stderr, logged := w'.logged }

namespace Session

/-- A reader that keeps what is passed on. -/
def keep (w : Output) : StateM Output Unit := modify fun kept => kept.append w

variable {l : Logger} {bound : Option ℕ} {s s' : Session} {n : ℕ}

/-- What a tick adds to the output does not depend on whether the output has been passed on. -/
theorem output_advance (l : Logger) (s : Session) :
    (s.advance l).output = s.output.append (s.drained.advance l).output := by
  let o := s.progress.advance.outcome
  show Output.mk (s.output.stdout ++ o.machine.host.stdout.accepted)
      (s.output.stderr ++ l.text s.output.logged o.records ++ o.machine.host.stderr) _ =
    Output.mk (s.output.stdout ++ (.empty ++ o.machine.host.stdout.accepted))
      (s.output.stderr ++ ("" ++ l.text s.output.logged o.records ++ o.machine.host.stderr)) _
  rw [ByteArray.empty_append, String.empty_append, String.append_assoc]
  rfl

/-- As it is followed in the course of time, a session passes on what it would have collected. -/
theorem run_follow (h : s.runWithin? l bound n = some s') :
    (s.drained.follow l bound keep (fun _ => pure ()) n).run s.output =
      (s'.drained, s'.output) := by
  induction n generalizing s with
  | zero =>
    rw [runWithin?] at h
    split at h
    · cases h
      rfl
    · cases h
  | succ n ih =>
    have hdrained : s.drained.isOver bound = s.isOver bound := rfl
    rw [runWithin?] at h
    rw [follow, hdrained]
    split at h
    · next hover =>
      cases h
      rw [if_pos hover]
      rfl
    · next hover =>
      have hpause : (s.drained.advance l).pause (μ := StateM Output) (fun _ => pure ()) = pure () :=
        ite_self _
      rw [if_neg hover, ← ih h, output_advance]
      simp only [hpause]
      rfl

/-- A session can be followed in parts. -/
theorem follow_add {μ : Type → Type} [Monad μ] [LawfulMonad μ] (emit : Output → μ Unit)
    (wait : Config → μ Unit) (s : Session) (a b : ℕ) :
    s.follow l bound emit wait (a + b) =
      s.follow l bound emit wait a >>= fun s => s.follow l bound emit wait b := by
  induction a generalizing s with
  | zero => rw [Nat.zero_add, follow, pure_bind]
  | succ a ih =>
    rw [Nat.succ_add, follow, follow]
    split
    · next hover =>
      rw [pure_bind]
      cases b with
      | zero => rfl
      | succ b => rw [follow, if_pos hover]
    · simp only [bind_assoc, ih]

/-- Nor does the end of a session depend on whether its output has been passed on. -/
theorem close_eq_append (l : Logger) (s : Session) :
    ∃ code out err, s.drained.close l = .exited code out err ∧
      s.close l = .exited code (s.output.stdout ++ out) (s.output.stderr ++ err) := by
  let o := s.progress.finish
  have hout : s.output.stdout ++ o.machine.host.stdout.accepted =
      s.output.stdout ++ (.empty ++ o.machine.host.stdout.accepted) := by
    rw [ByteArray.empty_append]
  have herr : ∀ t,
      s.output.stderr ++ l.text s.output.logged o.records ++ o.machine.host.stderr ++ t =
      s.output.stderr ++
        ("" ++ l.text s.output.logged o.records ++ o.machine.host.stderr ++ t) := by
    intro t
    rw [String.empty_append]
    simp only [String.append_assoc]
  have hdrained : s.drained.progress = s.progress := rfl
  simp only [close, hdrained]
  cases s.progress.finish.value with
  | ok st => exact ⟨_, _, _, rfl, congrArg₂ (Ending.exited _) hout (herr _)⟩
  | error e => exact ⟨_, _, _, rfl, congrArg₂ (Ending.exited 1) hout (herr _)⟩

theorem isOver_of_runWithin? (h : s.runWithin? l bound n = some s') : s'.isOver bound = true := by
  induction n generalizing s with
  | zero =>
    rw [runWithin?] at h
    split at h
    · next hover =>
      cases h
      exact hover
    · cases h
  | succ n ih =>
    rw [runWithin?] at h
    split at h
    · next hover =>
      cases h
      exact hover
    · exact ih h

/-- The program as it is followed in the course of time writes what it writes in all, and ends
alike. -/
theorem exists_follow_of_main? {options : Options} {o : Outcome Console Unit} {words : List String}
    {files : String → Except ReadError (List UInt8)} {entropy : ChaCha.Key} {fuel : ℕ} {e : Ending}
    (hparse : Options.parse words = .ok options)
    (hboot : boot options (files options.rom) entropy = .ok o)
    (he : main? l words files entropy fuel = some e) :
    ∃ s w code out err,
      ((start l o).drained.follow l options.maxTicks keep (fun _ => pure ())
        (options.maxTicks.getD fuel)).run (start l o).output = (s, w) ∧
      s.isOver options.maxTicks = true ∧ s.close l = .exited code out err ∧
      e = .exited code (w.stdout ++ out) (w.stderr ++ err) := by
  rw [main?, hparse] at he
  simp only [hboot] at he
  obtain ⟨s, hs, rfl⟩ := Option.map_eq_some_iff.1 he
  obtain ⟨code, out, err, hdrained, hclose⟩ := s.close_eq_append l
  have hover : s.isOver options.maxTicks = true := isOver_of_runWithin? hs
  exact ⟨s.drained, s.output, code, out, err, run_follow hs, hover, hdrained, hclose⟩

end Session

end ChipEight
