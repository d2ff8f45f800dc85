import ChipEight.Proofs.Displays
import ChipEight.Proofs.Replies

/-!
# What a machine reports

The log of a call mixes the machine's own records with those of displays and buzzer.  What one of
these reports follows the call of it at once, and its answer tells how much that is, so the
machine's own records can be told apart.  Each tick has few of them: the word that it is about to
execute, and then what has become of it.

* `Machine.ownRecords`, `Outcome.ownRecords`: the machine's own records in the course of some events
  and of a call;
* `Outcome.Reports`: a call that is heard and makes given reports of its own;
* `Machine.tickRecords`, `Machine.reports_tick`: the records of a tick;
* `Machine.reports_reset`, `Machine.reports_loadProgram`: those of a reset and of a load;
* `Machine.reports_ticks`: ticks in a row.
-/

namespace ChipEight

open Opcode

/-! ### Own records -/

namespace Machine

variable {η : Type} {m n : Machine η} {h : η} {es : List Event}

/-- The machine's own records in the course of some events.  The host is `h` before them, and their
first `k` records belong to an answer of the host, as do those that follow a call of a display or
the buzzer. -/
def ownRecords (m : Machine η) (h : η) (k : ℕ) : List Event → List LogRecord
  | [] => []
  | e :: es =>
      match m.reply? h e with
      | some r => m.ownRecords r.host r.log.length es
      | none => (if k = 0 then e.record?.toList else []) ++ m.ownRecords h (k - 1) es

theorem ownRecords_cons_of_some {e : Event} {r : Reply η} (hr : m.reply? h e = some r) (k : ℕ) :
    m.ownRecords h k (e :: es) = m.ownRecords r.host r.log.length es := by
  rw [ownRecords, hr]

/-- Records that follow no call are the machine's own. -/
theorem ownRecords_logs (rs : List LogRecord) :
    m.ownRecords h 0 (rs.map Event.log ++ es) = rs ++ m.ownRecords h 0 es := by
  induction rs with
  | nil => rfl
  | cons r rs ih => exact congrArg (r :: ·) ih

/-- The records of an answer are not. -/
theorem ownRecords_answer (rs : List LogRecord) :
    m.ownRecords h rs.length (rs.map Event.log ++ es) = m.ownRecords h 0 es := by
  induction rs with
  | nil => rfl
  | cons r rs ih => exact ih

theorem ownRecords_congr (hd : n.displays = m.displays) (hb : n.buzzer = m.buzzer) (k : ℕ) :
    n.ownRecords h k es = m.ownRecords h k es := by
  induction es generalizing h k with
  | nil => rfl
  | cons e es ih => simp only [ownRecords, reply?_congr hd hb, ih]

end Machine

/-! ### Calls that report -/

/-- The records of a machine with so many displays as it does what an instruction asks for. -/
def Effect.records (displays : ℕ) : Effect → List LogRecord
  | proceed => []
  | redraw => [.showing displays]
  | exit code => [.exited code]

namespace Outcome

variable {η α β : Type} {m n : Machine η} {o : Outcome η α} {rs ss : List LogRecord}

/-- The own records of the machine on which a call is made. -/
def ownRecords (m : Machine η) (o : Outcome η α) : List LogRecord :=
  m.ownRecords m.host 0 o.events.toList

/-- What displays and buzzer report in the course of a call. -/
def hostRecords (m : Machine η) (o : Outcome η α) : List LogRecord :=
  (m.replies m.host o.events.toList).flatMap Reply.log

/-- A call that is heard and in the course of which the machine makes the reports `rs`.  Where its
events end no answer is left unfinished, and there are no records but these and those of the
answers. -/
structure Reports (m : Machine η) (rs : List LogRecord) (o : Outcome η α) : Prop where
  heard : o.Heard m
  own : ∀ es, m.ownRecords m.host 0 (o.events.toList ++ es) =
    rs ++ m.ownRecords o.machine.host 0 es
  all : o.records.Perm (rs ++ o.hostRecords m)

theorem Reports.ownRecords_eq (h : o.Reports m rs) : o.ownRecords m = rs := by
  have hown := h.own []
  rwa [List.append_nil, Machine.ownRecords, List.append_nil] at hown

/-- A call without callbacks makes the reports that are its events. -/
theorem Heard.reports (h : o.Heard m) (he : o.events.toList = rs.map Event.log) :
    o.Reports m rs where
  heard := h
  own es := by
    have hhost : o.machine.host = m.host := by
      rw [h.host, he, Machine.replies_of_logs (by simp)]
      rfl
    rw [he, Machine.ownRecords_logs, hhost]
  all := by
    rw [hostRecords, he, Machine.replies_of_logs (by simp), records, he, List.filterMap_map]
    simp [Function.comp_def, Event.record?]

theorem Reports.of_same (h : o.Reports n rs) (hd : n.displays = m.displays)
    (hb : n.buzzer = m.buzzer) (hh : n.host = m.host) (hs : n.stopRequested = m.stopRequested) :
    o.Reports m rs where
  heard := h.heard.of_same hd hb hh hs
  own es := by
    have hown := h.own es
    rwa [Machine.ownRecords_congr hd hb, Machine.ownRecords_congr hd hb, hh] at hown
  all := by
    have hall := h.all
    rwa [hostRecords, Machine.replies_congr hd hb, hh] at hall

theorem Reports.congr {p : Outcome η β} (h : o.Reports m rs) (hm : p.machine = o.machine)
    (he : p.events = o.events) : p.Reports m rs where
  heard := h.heard.congr hm he
  own es := by rw [he, hm, h.own]
  all := by
    rw [records, hostRecords, he]
    exact h.all

theorem Reports.andThen {f : Machine η → Outcome η β} (h : o.Reports m rs)
    (hf : (f o.machine).Reports o.machine ss) : (o.andThen f).Reports m (rs ++ ss) where
  heard := h.heard.andThen hf.heard
  own es := by
    have hd := h.heard.displays
    have hb := h.heard.buzzer
    rw [events_andThen, Array.toList_append, List.append_assoc, h.own,
      ← Machine.ownRecords_congr hd hb, hf.own, Machine.ownRecords_congr hd hb, List.append_assoc]
    rfl
  all := by
    have hhost : (o.andThen f).hostRecords m = o.hostRecords m ++
        (f o.machine).hostRecords o.machine := by
      rw [hostRecords, events_andThen, Array.toList_append, Machine.replies_append, ← h.heard.host,
        List.flatMap_append, ← Machine.replies_congr (h := o.machine.host) h.heard.displays
          h.heard.buzzer]
      rfl
    rw [hhost, records_andThen]
    refine (h.all.append hf.all).trans ?_
    simp only [List.append_assoc]
    exact (List.perm_append_comm_assoc _ _ _).append_left rs

end Outcome

namespace Machine

variable {η : Type} {m : Machine η}

/-- What a callback reports is no report of the machine. -/
theorem reports_callback {e : Event} {r : Reply η} (hr : m.reply? m.host e = some r) :
    ((Outcome.mk m #[e] ()).andThen fun m => m.accept r).Reports m [] where
  heard := heard_callback hr
  own es := by
    simp only [Outcome.events_andThen, accept, Array.toList_append, List.cons_append,
      List.nil_append, ownRecords_cons_of_some hr, ownRecords_answer]
    rfl
  all := by
    have hevents : ((Outcome.mk m #[e] ()).andThen fun m => m.accept r).events.toList =
        e :: r.log.map Event.log := by
      simp [accept]
    have hcall : e.record? = none := by
      cases e with
      | log record => cases hr
      | _ => rfl
    rw [Outcome.hostRecords, Outcome.records, hevents, replies_callback hr,
      List.filterMap_cons_none hcall, List.filterMap_map]
    simp [Function.comp_def, Event.record?]

theorem reports_report (m : Machine η) (r : LogRecord) : (m.report r).Reports m [r] :=
  (m.heard_report r).reports rfl

theorem reports_showOn (m : Machine η) : (m.showOn 0 m.displays).Reports m [] :=
  showOn_induction (R := fun n o => o.Reports n []) (fun n => n.heard_idle.reports rfl)
    (fun _ _ _ => reports_callback) (fun _ _ _ => Outcome.Reports.andThen)
    (List.nil_append m.displays).symm

theorem reports_showFrame (m : Machine η) : m.showFrame.Reports m [.showing m.displays.length] :=
  (m.reports_report _).andThen m.reports_showOn

theorem reports_soundBuzzer (m : Machine η) : m.soundBuzzer.Reports m [] := by
  have hheard := m.heard_soundBuzzer
  unfold soundBuzzer at hheard ⊢
  split at hheard
  · exact hheard.reports rfl
  · next b hb => exact reports_callback (by simp [reply?, hb])

theorem reports_perform (m : Machine η) (f : Effect) :
    (m.perform f).Reports m (f.records m.displays.length) := by
  cases f with
  | redraw => exact m.reports_showFrame
  | proceed => exact (m.heard_perform .proceed).reports rfl
  | exit code => exact (m.heard_perform (.exit code)).reports rfl

theorem reports_complete (m : Machine η) (f : Effect) :
    (m.complete f).Reports m (f.records m.displays.length) := by
  have hcount : ∀ n : Machine η, n.countDown.Reports n [] := fun n => n.heard_countDown.reports rfl
  have hask : ∀ n : Machine η, n.askStatus.Reports n [] := fun n => n.heard_askStatus.reports rfl
  have hall := (((m.reports_perform f).andThen (hcount _)).andThen
    (reports_soundBuzzer _)).andThen (hask _)
  simp only [List.append_nil] at hall
  exact hall

/-! ### Ticks -/

/-- The records of the next tick.  A ready machine reports the word that it has fetched, with the
registers as they are before, and then, after the instruction, that it shows the picture, that it
exits or that it halts; if it fetches none, that it halts. -/
def tickRecords (m : Machine η) : List LogRecord :=
  match m.status, m.state.fetch with
  | .ready, .ok op =>
      .executing op m.state.registers m.state.index m.state.pc ::
        match m.tick.machine.status with
        | .ready => if draws op then [.showing m.displays.length] else []
        | .exited code => [.exited code]
        | .faulted e => [.halting m.state.pc e]
  | .ready, .error e => [.halting m.state.pc e]
  | _, _ => []

theorem tickRecords_of_not_ready (h : m.status ≠ .ready) : m.tickRecords = [] := by
  unfold tickRecords
  split
  · contradiction
  · contradiction
  · rfl

/-- A tick that meets a fault reports it, after the word if that could be fetched. -/
theorem tickRecords_of_upcoming_error {e : Fault} (hs : m.status = .ready)
    (h : m.upcoming = .error e) :
    m.tickRecords = (match m.state.fetch with
      | .ok op => [.executing op m.state.registers m.state.index m.state.pc]
      | .error _ => []) ++ [.halting m.state.pc e] := by
  have hhalted : m.tick.machine.status = .faulted e := by rw [(tick_of_upcoming_error hs h).1]
  unfold tickRecords
  cases hf : m.state.fetch with
  | error e' =>
    rw [upcoming, State.upcoming_of_fetch_error hf] at h
    obtain rfl := Except.error.inj h
    rw [hs]
    rfl
  | ok op =>
    rw [hs, hhalted]
    rfl

/-- A tick that meets no fault reports what its instruction asks for. -/
theorem tickRecords_of_upcoming_ok {i : Instruction} {op : UInt16} (hs : m.status = .ready)
    (h : m.upcoming = .ok i) (hf : m.state.fetch = .ok op) :
    m.tickRecords = .executing op m.state.registers m.state.index m.state.pc ::
      i.effect.records m.displays.length := by
  obtain ⟨op', hf', hd, -⟩ := State.upcoming_eq_ok_iff.1 h
  obtain rfl : op' = op := Except.ok.inj (hf'.symm.trans hf)
  obtain ⟨⟨r, hm⟩, -⟩ := tick_of_upcoming_ok hs h
  have hstatus : m.tick.machine.status = i.effect.status := by rw [hm]; rfl
  have hdraws := Instruction.effect_eq_redraw_iff hd
  unfold tickRecords
  rw [hs, hf, hstatus]
  cases hi : i.effect with
  | proceed =>
    have hop : draws op' = false := by simpa [hi] using hdraws
    simp [Effect.status, Effect.records, hop]
  | redraw =>
    have hop : draws op' = true := hdraws.1 hi
    simp [Effect.status, Effect.records, hop]
  | exit code => rfl

/-- A tick that executes no word makes its own reports and nothing else. -/
theorem events_tick_of_not_executed (hx : m.executed? = none) :
    m.tick.events.toList = m.tickRecords.map Event.log := by
  by_cases hs : m.status = .ready
  · obtain ⟨e, hu⟩ := (executed?_eq_none_iff hs).1 hx
    rw [tickRecords_of_upcoming_error hs hu, tick_of_ready hs, executeNext]
    cases hf : m.state.fetch with
    | error e' =>
      rw [upcoming, State.upcoming_of_fetch_error hf] at hu
      obtain rfl := Except.error.inj hu
      rfl
    | ok op =>
      have hrefused : execute m.surroundings m.random m.state op =
          ⟨⟨.error e, m.state⟩, m.random⟩ := State.execute_of_upcoming_error hf hu
      simp only [reportOpcode, report, Outcome.andThen, hrefused]
      rfl
  · rw [tickRecords_of_not_ready hs, tick_of_not_ready hs]
    rfl

theorem reports_tick (m : Machine η) : m.tick.Reports m m.tickRecords := by
  cases hx : m.executed? with
  | none => exact m.heard_tick.reports (events_tick_of_not_executed hx)
  | some op =>
    obtain ⟨hs, hf, i, -, hu⟩ := executed?_eq_some_iff.1 hx
    obtain ⟨op', hf', -, ht⟩ := tick_eq_complete hs hu
    obtain rfl : op' = op := Except.ok.inj (hf'.symm.trans hf)
    have hrest := (m.adopt ⟨.done i.effect (i.after m.surroundings m.random m.state),
      i.randomAfter m.random⟩).reports_complete i.effect
    rw [ht, tickRecords_of_upcoming_ok hs hu hf]
    exact (m.reports_report _).andThen (hrest.of_same rfl rfl rfl rfl)

/-! ### Other actions -/

theorem reports_reset (m : Machine η) :
    m.reset.Reports m [.machineReset, .showing m.displays.length] := by
  have hblank := reports_report { m with state := State.initial, status := .ready } .machineReset
  exact (hblank.andThen (reports_showFrame _)).of_same rfl rfl rfl rfl

/-- A load reports the size of a program that fits. -/
theorem reports_loadProgram (m : Machine η) (rom : List UInt8) :
    (m.loadProgram rom).Reports m
      (if Program.start + rom.length ≤ Memory.size then [.programLoaded rom.length] else []) := by
  refine (m.heard_loadProgram rom).reports ?_
  unfold loadProgram State.loadProgram
  by_cases h : Program.start + rom.length ≤ Memory.size
  · rw [State.write_of_le _ h, if_pos h]
    rfl
  · rw [State.write_of_lt _ (Nat.lt_of_not_le h), if_neg h]
    rfl

/-- The records of `n` ticks in a row. -/
def ticksRecords (m : Machine η) (n : ℕ) : List LogRecord :=
  (List.range n).flatMap fun j => (m.afterTicks j).tickRecords

theorem reports_ticks (m : Machine η) (n : ℕ) :
    (Action.performAll m (List.replicate n .tick)).Reports m (m.ticksRecords n) := by
  induction n generalizing m with
  | zero => exact (m.heard_ticks 0).reports rfl
  | succ n ih =>
    have htick : m.tick.forget.Reports m m.tickRecords := m.reports_tick.congr rfl rfl
    rw [ticksRecords, List.range_succ_eq_map, List.flatMap_cons, List.flatMap_map]
    exact htick.andThen (ih m.tick.machine)

end Machine

end ChipEight
