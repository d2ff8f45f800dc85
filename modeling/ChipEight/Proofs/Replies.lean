import ChipEight.Proofs.Callbacks
import ChipEight.Proofs.Stepping

/-!
# What displays and buzzer answer

The host is passed from one callback to the next, so the answers in the course of a call can be
found again from its events and the host before it.  A tick, a step and a reset change the host and
the request to stop by these answers alone.

* `Machine.replies`: the answers in the course of some events;
* `Outcome.Heard`: a call that changes the host and the request to stop by the answers alone;
* `Machine.heard_showOn`, `Machine.heard_soundBuzzer`: displays and buzzer;
* `Machine.heard_tick`, `Machine.heard_step`, `Machine.heard_reset`: ticks, steps and resets.
-/

namespace ChipEight

/-! ### Answers -/

/-- The host after some answers. -/
def Reply.hostAfter {η : Type} (h : η) (rs : List (Reply η)) : η := rs.foldl (fun _ r => r.host) h

namespace Machine

variable {η : Type} {m n : Machine η} {h : η} {es : List Event}

/-- What a display or the buzzer answers, if an event is a call of it. -/
def reply? (m : Machine η) (h : η) : Event → Option (Reply η)
  | .log _ => none
  | .shown k f => (m.displays[k]?).map fun d => d f h
  | .buzzed on => m.buzzer.map fun b => b on h

/-- What displays and buzzer answer in the course of some events; each finds the host that the one
before it left. -/
def replies (m : Machine η) (h : η) : List Event → List (Reply η)
  | [] => []
  | e :: es =>
      match m.reply? h e with
      | none => m.replies h es
      | some r => r :: m.replies r.host es

@[simp] theorem replies_nil (m : Machine η) (h : η) : m.replies h [] = [] := rfl

theorem replies_cons_of_none {e : Event} (hr : m.reply? h e = none) :
    m.replies h (e :: es) = m.replies h es := by
  rw [replies, hr]

theorem replies_cons_of_some {e : Event} {r : Reply η} (hr : m.reply? h e = some r) :
    m.replies h (e :: es) = r :: m.replies r.host es := by
  rw [replies, hr]

theorem replies_append (m : Machine η) (h : η) (es fs : List Event) :
    m.replies h (es ++ fs) =
      m.replies h es ++ m.replies (Reply.hostAfter h (m.replies h es)) fs := by
  induction es generalizing h with
  | nil => rfl
  | cons e es ih =>
    rw [List.cons_append]
    cases hr : m.reply? h e with
    | none => rw [replies_cons_of_none hr, replies_cons_of_none hr, ih]
    | some r =>
      rw [replies_cons_of_some hr, replies_cons_of_some hr, ih]
      rfl

/-- Reports are not answered. -/
theorem replies_of_logs (hes : ∀ e ∈ es, ∃ record, e = .log record) : m.replies h es = [] := by
  induction es with
  | nil => rfl
  | cons e es ih =>
    obtain ⟨record, rfl⟩ := hes e List.mem_cons_self
    rw [replies_cons_of_none rfl]
    exact ih fun f hf => hes f (List.mem_cons_of_mem _ hf)

/-- Who answers are the displays and the buzzer of the machine. -/
theorem reply?_congr (hd : n.displays = m.displays) (hb : n.buzzer = m.buzzer) (h : η) (e : Event) :
    n.reply? h e = m.reply? h e := by
  cases e with
  | log record => rfl
  | shown k f => simp only [reply?, hd]
  | buzzed on => simp only [reply?, hb]

theorem replies_congr (hd : n.displays = m.displays) (hb : n.buzzer = m.buzzer) :
    n.replies h es = m.replies h es := by
  induction es generalizing h with
  | nil => rfl
  | cons e es ih => simp only [replies, reply?_congr hd hb, ih]

end Machine

/-! ### Calls that are heard -/

namespace Outcome

variable {η α β : Type} {m n : Machine η} {o : Outcome η α}

/-- A call from a machine that keeps displays and buzzer, and changes the host and the request to
stop by the answers in the course of its events alone. -/
structure Heard (m : Machine η) (o : Outcome η α) : Prop where
  displays : o.machine.displays = m.displays
  buzzer : o.machine.buzzer = m.buzzer
  host : o.machine.host = Reply.hostAfter m.host (m.replies m.host o.events.toList)
  stop : o.machine.stopRequested =
    (m.stopRequested || (m.replies m.host o.events.toList).any Reply.stop)

/-- What is heard from one machine is heard from another with the same surroundings. -/
theorem Heard.of_same (h : o.Heard n) (hd : n.displays = m.displays) (hb : n.buzzer = m.buzzer)
    (hh : n.host = m.host) (hs : n.stopRequested = m.stopRequested) : o.Heard m where
  displays := h.displays.trans hd
  buzzer := h.buzzer.trans hb
  host := by rw [h.host, hh, Machine.replies_congr hd hb]
  stop := by rw [h.stop, hh, hs, Machine.replies_congr hd hb]

/-- A call that leads to the same machine with the same events is heard as well. -/
theorem Heard.congr {p : Outcome η β} (h : o.Heard m) (hm : p.machine = o.machine)
    (he : p.events = o.events) : p.Heard m := by
  constructor
  · rw [hm, h.displays]
  · rw [hm, h.buzzer]
  · rw [hm, he, h.host]
  · rw [hm, he, h.stop]

/-- Nothing is to be heard of a call that makes no callback. -/
theorem heard_of_logs (hd : o.machine.displays = m.displays) (hb : o.machine.buzzer = m.buzzer)
    (hh : o.machine.host = m.host) (hs : o.machine.stopRequested = m.stopRequested)
    (he : ∀ e ∈ o.events.toList, ∃ record, e = .log record) : o.Heard m where
  displays := hd
  buzzer := hb
  host := by rw [Machine.replies_of_logs he]; exact hh
  stop := by rw [Machine.replies_of_logs he, hs]; simp

theorem Heard.andThen {f : Machine η → Outcome η β} (h : o.Heard m)
    (hf : (f o.machine).Heard o.machine) : (o.andThen f).Heard m := by
  have hreplies : m.replies m.host (o.andThen f).events.toList =
      m.replies m.host o.events.toList ++
        o.machine.replies o.machine.host (f o.machine).events.toList := by
    rw [events_andThen, Array.toList_append, Machine.replies_append, ← h.host,
      Machine.replies_congr h.displays h.buzzer]
  constructor
  · exact hf.displays.trans h.displays
  · exact hf.buzzer.trans h.buzzer
  · rw [hreplies, Reply.hostAfter, List.foldl_append]
    refine hf.host.trans ?_
    rw [h.host]
    rfl
  · rw [hreplies, List.any_append, ← Bool.or_assoc, ← h.stop]
    exact hf.stop

end Outcome

namespace Machine

variable {η : Type} {m : Machine η}

/-- A callback is answered once. -/
theorem replies_callback {e : Event} {r : Reply η} (hr : m.reply? m.host e = some r) :
    m.replies m.host (e :: r.log.map Event.log) = [r] := by
  rw [replies_cons_of_some hr, replies_of_logs]
  simp

/-- A callback is heard. -/
theorem heard_callback {e : Event} {r : Reply η} (hr : m.reply? m.host e = some r) :
    ((Outcome.mk m #[e] ()).andThen fun m => m.accept r).Heard m := by
  constructor
  · rfl
  · rfl
  · simp only [Outcome.events_andThen, accept, Array.toList_append, List.cons_append,
      List.nil_append, replies_callback hr]
    rfl
  · simp only [Outcome.events_andThen, accept, Array.toList_append, List.cons_append,
      List.nil_append, replies_callback hr, List.any_cons, List.any_nil, Bool.or_false]
    rfl

/-- Displays from some place on are shown the picture by one callback after another.  Their places
are those in the list of all of them, so the ones before have to be kept in view. -/
theorem showOn_induction {R : Machine η → Outcome η Unit → Prop} (idle : ∀ n, R n n.idle)
    (callback : ∀ n e r, n.reply? n.host e = some r →
      R n ((Outcome.mk n #[e] ()).andThen fun n => n.accept r))
    (andThen : ∀ n o f, R n o → R o.machine (f o.machine) → R n (o.andThen f))
    {before ds : List (Display η)} (hd : m.displays = before ++ ds) :
    R m (m.showOn before.length ds) := by
  induction ds generalizing m before with
  | nil => exact idle m
  | cons d ds ih =>
    have hreply : m.reply? m.host (.shown before.length m.state.frame) =
        some (d m.state.frame m.host) := by
      simp [reply?, hd]
    have hnext : (m.respond (d m.state.frame m.host)).displays = (before ++ [d]) ++ ds := by
      rw [List.append_assoc]
      exact hd
    have hrest := ih hnext
    rw [List.length_append] at hrest
    have hboth := andThen m _ (fun n => n.showOn (before.length + 1) ds)
      (callback m _ _ hreply) hrest
    rw [Outcome.andThen_assoc] at hboth
    exact hboth

theorem heard_idle (m : Machine η) : m.idle.Heard m :=
  Outcome.heard_of_logs rfl rfl rfl rfl (by simp [idle])

theorem heard_showOn (m : Machine η) : (m.showOn 0 m.displays).Heard m :=
  showOn_induction (R := fun n o => o.Heard n) heard_idle (fun _ _ _ => heard_callback)
    (fun _ _ _ => Outcome.Heard.andThen) (List.nil_append m.displays).symm

theorem heard_report (m : Machine η) (r : LogRecord) : (m.report r).Heard m :=
  Outcome.heard_of_logs rfl rfl rfl rfl (by simp [report])

theorem heard_showFrame (m : Machine η) : m.showFrame.Heard m :=
  (m.heard_report _).andThen m.heard_showOn

theorem heard_soundBuzzer (m : Machine η) : m.soundBuzzer.Heard m := by
  unfold soundBuzzer
  split
  · exact m.heard_idle
  · next b hb => exact heard_callback (by simp [reply?, hb])

theorem heard_perform (m : Machine η) (f : Effect) : (m.perform f).Heard m := by
  cases f with
  | proceed => exact m.heard_idle
  | redraw => exact m.heard_showFrame
  | exit code =>
    exact Outcome.heard_of_logs rfl rfl rfl rfl (by simp [perform, report, idle])

theorem heard_countDown (m : Machine η) : m.countDown.Heard m :=
  Outcome.heard_of_logs rfl rfl rfl rfl (by simp [countDown, idle])

theorem heard_askStatus (m : Machine η) : m.askStatus.Heard m :=
  Outcome.heard_of_logs rfl rfl rfl rfl (by simp [askStatus])

theorem heard_complete (m : Machine η) (f : Effect) : (m.complete f).Heard m :=
  (((m.heard_perform f).andThen (heard_countDown _)).andThen (heard_soundBuzzer _)).andThen
    (heard_askStatus _)

theorem heard_tick (m : Machine η) : m.tick.Heard m := by
  by_cases hs : m.status = .ready
  · cases hu : m.upcoming with
    | error e =>
      obtain ⟨hm, -, hlogs⟩ := tick_of_upcoming_error hs hu
      exact Outcome.heard_of_logs (by rw [hm]) (by rw [hm]) (by rw [hm]) (by rw [hm])
        (by simpa using hlogs)
    | ok i =>
      obtain ⟨op, -, -, ht⟩ := tick_eq_complete hs hu
      rw [ht]
      refine (m.heard_report _).andThen ?_
      exact (heard_complete _ i.effect).of_same rfl rfl rfl rfl
  · rw [tick_of_not_ready hs]
    exact Outcome.heard_of_logs rfl rfl rfl rfl (by simp)

theorem heard_reset (m : Machine η) : m.reset.Heard m := by
  have hblank := heard_report { m with state := State.initial, status := .ready } .machineReset
  exact (hblank.andThen (heard_showFrame _)).of_same rfl rfl rfl rfl

theorem heard_ticks (m : Machine η) (n : ℕ) :
    (Action.performAll m (List.replicate n .tick)).Heard m := by
  induction n generalizing m with
  | zero => exact m.heard_idle
  | succ n ih =>
    have htick : m.tick.forget.Heard m := m.heard_tick.congr rfl rfl
    exact htick.andThen (ih m.tick.machine)

theorem heard_step (m : Machine η) (n : ℕ) : (m.step n).Heard m := by
  have hticks := m.heard_ticks n
  rw [← forget_step] at hticks
  exact hticks.congr rfl rfl

/-- A load reports at most. -/
theorem logs_loadProgram (m : Machine η) (rom : List UInt8) :
    ∀ e ∈ (m.loadProgram rom).events.toList, ∃ record, e = .log record := by
  intro e he
  unfold loadProgram at he
  cases hv : (m.state.loadProgram rom).value with
  | error fault => simp [hv] at he
  | ok u =>
    simp only [hv, List.mem_singleton] at he
    exact ⟨_, he⟩

theorem heard_loadProgram (m : Machine η) (rom : List UInt8) : (m.loadProgram rom).Heard m :=
  Outcome.heard_of_logs rfl rfl rfl rfl (m.logs_loadProgram rom)

end Machine

end ChipEight
