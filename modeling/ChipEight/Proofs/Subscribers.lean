import ChipEight.Proofs.Displays
import ChipEight.Proofs.Replies
import ChipEight.Proofs.RunReports
import ChipEight.Proofs.TerminalStream

/-!
# The writer of a display

A display that writes to a part of the host which nothing else touches leaves there what the writer
makes of the pictures that the display is shown, one after another, and with each picture come the
reports of the writer.

* `Event.Answered`: the pictures that a display is shown, each with reports that follow at once;
* `Display.Writes`, `Machine.Keeps`: a machine in which the display at one place, and nothing else,
  changes a writer of the host;
* `Outcome.Written`: a call in the course of which pictures come to this writer;
* `Machine.Keeps.tick`, `Machine.Keeps.perform?`: ticks and commands are such calls;
* `Command.written_performAll?`: so is any history, from the addition of the display on.
-/

namespace ChipEight

variable {η α β : Type} {k : ℕ}

/-! ### Answers to pictures -/

/-- In the course of some events the display with place `k` is shown certain pictures and no
others, and with each of them certain reports follow at once. -/
inductive Event.Answered (k : ℕ) : List Event → List (Frame × List LogRecord) → Prop
  | nil : Answered k [] []
  | shown (f : Frame) (rs : List LogRecord) {es : List Event}
      {qs : List (Frame × List LogRecord)} :
      Answered k es qs → Answered k (.shown k f :: (rs.map .log ++ es)) ((f, rs) :: qs)
  | other {e : Event} {es : List Event} {qs : List (Frame × List LogRecord)} :
      (∀ f, e ≠ .shown k f) → Answered k es qs → Answered k (e :: es) qs

namespace Event.Answered

variable {es es' : List Event} {qs qs' : List (Frame × List LogRecord)}

theorem append (h : Answered k es qs) (h' : Answered k es' qs') :
    Answered k (es ++ es') (qs ++ qs') := by
  induction h with
  | nil => exact h'
  | shown f rs _ ih =>
    rw [List.cons_append, List.append_assoc]
    exact ih.shown f rs
  | other he _ ih => exact ih.other he

theorem of_logs (h : ∀ e ∈ es, ∃ record, e = .log record) : Answered k es [] := by
  induction es with
  | nil => exact .nil
  | cons e es ih =>
    obtain ⟨record, rfl⟩ := h e List.mem_cons_self
    exact (ih fun e he => h e (List.mem_cons_of_mem _ he)).other fun f hf => by cases hf

end Event.Answered

/-! ### Writers fed by one display -/

/-- Pictures for a writer in two portions. -/
theorem Writer.presentAll_append (w : Writer) (fs gs : List Frame) :
    w.presentAll (fs ++ gs) =
      (((w.presentAll fs).1.presentAll gs).1,
        (w.presentAll fs).2 ++ ((w.presentAll fs).1.presentAll gs).2) := by
  induction fs generalizing w with
  | nil => rfl
  | cons f fs ih =>
    simp only [List.cons_append, presentAll, ih]

theorem Writer.length_logs_presentAll (w : Writer) (fs : List Frame) :
    (w.presentAll fs).2.length = fs.length := by
  induction fs generalizing w with
  | nil => rfl
  | cons f fs ih => exact congrArg (· + 1) (ih _)

/-- A display that gives its pictures to a writer of the host and reports what that reports. -/
def Display.Writes (d : Display η) (get : η → Writer) : Prop :=
  ∀ f h, (get (d f h).host, (d f h).log) = (get h).present f

/-- A machine in which the display with place `k`, if there is one, gives its pictures to a writer
of the host, and neither another display nor the buzzer touches this writer. -/
structure Machine.Keeps (m : Machine η) (get : η → Writer) (k : ℕ) : Prop where
  picture : ∀ {h f r}, m.reply? h (.shown k f) = some r → (get r.host, r.log) = (get h).present f
  other : ∀ {h e r}, m.reply? h e = some r → (∀ f, e ≠ .shown k f) → get r.host = get h

/-- A command that leaves a writer of the host alone, and brings no display or buzzer that does
not. -/
def Command.Spares (get : η → Writer) : Command η → Prop
  | addDisplay d => ∀ f h, get (d f h).host = get h
  | setBuzzer b => ∀ on h, get (b on h).host = get h
  | updateHost change => ∀ h, get (change h).host = get h
  | _ => True

namespace Outcome

variable {get : η → Writer} {h : η} {o : Outcome η α}

/-- A call from the host `h` on, in the course of which the pictures that the display with place `k`
is shown come to a writer, with whose reports they are answered. -/
structure Written (get : η → Writer) (k : ℕ) (h : η) (o : Outcome η α) : Prop where
  keeps : o.machine.Keeps get k
  answered : Event.Answered k o.events.toList
    ((o.shownTo k).zip ((get h).presentAll (o.shownTo k)).2)
  writer : get o.machine.host = ((get h).presentAll (o.shownTo k)).1

/-- One call after another. -/
theorem Written.andThen {f : Machine η → Outcome η β} (ho : o.Written get k h)
    (hf : o.machine.Keeps get k → (f o.machine).Written get k o.machine.host) :
    (o.andThen f).Written get k h := by
  obtain ⟨hkeeps, hanswered, hwriter⟩ := hf ho.keeps
  rw [ho.writer] at hanswered hwriter
  refine ⟨hkeeps, ?_, ?_⟩
  · rw [events_andThen, Array.toList_append, shownTo_andThen, Writer.presentAll_append,
      List.zip_append (Writer.length_logs_presentAll _ _).symm]
    exact ho.answered.append hanswered
  · rw [shownTo_andThen, Writer.presentAll_append]
    exact hwriter

theorem Written.congr {p : Outcome η β} (ho : o.Written get k h) (hm : p.machine = o.machine)
    (he : p.events = o.events) : p.Written get k h := by
  have hshown : p.shownTo k = o.shownTo k := by rw [shownTo, shownTo, shows, shows, he]
  constructor
  · rw [hm]; exact ho.keeps
  · rw [he, hshown]; exact ho.answered
  · rw [hm, hshown]; exact ho.writer

/-- A call without callbacks that does not touch the writer. -/
theorem written_of_logs (hk : o.machine.Keeps get k) (hh : get o.machine.host = get h)
    (he : ∀ e ∈ o.events.toList, ∃ record, e = .log record) : o.Written get k h := by
  have hshown : o.shownTo k = [] := by
    have hshows : o.shows = [] := List.filterMap_eq_nil_iff.2 fun e hmem => by
      obtain ⟨record, rfl⟩ := he e hmem
      rfl
    rw [shownTo, hshows]
    rfl
  constructor
  · exact hk
  · rw [hshown]; exact .of_logs he
  · rw [hshown]; exact hh

end Outcome

namespace Machine.Keeps

variable {m n : Machine η} {get : η → Writer}

theorem congr (h : m.Keeps get k) (hd : n.displays = m.displays) (hb : n.buzzer = m.buzzer) :
    n.Keeps get k where
  picture hr := h.picture ((reply?_congr hd hb _ _).symm.trans hr)
  other hr := h.other ((reply?_congr hd hb _ _).symm.trans hr)

/-! ### Ticks -/

/-- A callback: only a picture for the display with place `k` reaches the writer. -/
theorem callback {e : Event} {r : Reply η} (h : m.Keeps get k)
    (hr : m.reply? m.host e = some r) :
    ((Outcome.mk m #[e] ()).andThen fun m => m.accept r).Written get k m.host := by
  have hevents : ((Outcome.mk m #[e] ()).andThen fun m => m.accept r).events.toList =
      e :: (r.log.map .log ++ []) := by
    simp [accept]
  have hshown : ((Outcome.mk m #[e] ()).andThen fun m => m.accept r).shownTo k =
      e.shown?.toList.filterMap fun q => if q.1 = k then some q.2 else none := by
    have hlogs : (r.log.map Event.log ++ []).filterMap Event.shown? = [] := by
      simp [Event.shown?]
    rw [Outcome.shownTo, Outcome.shows, hevents, List.filterMap_cons, hlogs]
    cases e.shown? <;> rfl
  have hkeeps := h.congr (n := m.respond r) rfl rfl
  by_cases he : ∃ f, e = .shown k f
  · obtain ⟨f, rfl⟩ := he
    obtain ⟨hhost, hlog⟩ := Prod.mk.inj (h.picture hr)
    have hone : (Event.shown k f).shown?.toList.filterMap
        (fun q => if q.1 = k then some q.2 else none) = [f] := by simp [Event.shown?]
    rw [hone] at hshown
    refine ⟨hkeeps, ?_, ?_⟩
    · rw [hevents, hshown, hlog]
      exact Event.Answered.nil.shown f _
    · rw [hshown]
      exact hhost
  · have hother : ∀ f, e ≠ .shown k f := fun f hf => he ⟨f, hf⟩
    have hnone : e.shown?.toList.filterMap
        (fun q => if q.1 = k then some q.2 else none) = [] := by
      cases e with
      | shown j f =>
        have hj : j ≠ k := fun hj => hother f (hj ▸ rfl)
        simp [Event.shown?, hj]
      | _ => rfl
    rw [hnone] at hshown
    refine ⟨hkeeps, ?_, ?_⟩
    · rw [hevents, hshown, List.append_nil]
      exact (Event.Answered.of_logs (by simp)).other hother
    · rw [hshown]
      exact h.other hr hother

theorem idle (h : m.Keeps get k) : m.idle.Written get k m.host :=
  Outcome.written_of_logs h rfl (by simp [Machine.idle])

theorem report (h : m.Keeps get k) (r : LogRecord) : (m.report r).Written get k m.host :=
  Outcome.written_of_logs h rfl (by simp [Machine.report])

theorem showFrame (h : m.Keeps get k) : m.showFrame.Written get k m.host :=
  (h.report _).andThen fun h => showOn_induction
    (R := fun n o => n.Keeps get k → o.Written get k n.host) (fun _ h => h.idle)
    (fun _ _ _ hr h => h.callback hr) (fun _ _ _ ho hf h => (ho h).andThen hf)
    (List.nil_append m.displays).symm h

theorem soundBuzzer (h : m.Keeps get k) : m.soundBuzzer.Written get k m.host := by
  unfold Machine.soundBuzzer
  split
  · exact h.idle
  · next b hb => exact h.callback (by simp [reply?, hb])

theorem perform (h : m.Keeps get k) (f : Effect) : (m.perform f).Written get k m.host := by
  cases f with
  | proceed => exact h.idle
  | redraw => exact h.showFrame
  | exit code =>
    exact Outcome.written_of_logs (h.congr rfl rfl) rfl
      (by simp [Machine.perform, Machine.report, Machine.idle])

theorem complete (h : m.Keeps get k) (f : Effect) : (m.complete f).Written get k m.host := by
  have hcount : ∀ {n : Machine η}, n.Keeps get k → n.countDown.Written get k n.host := fun h =>
    Outcome.written_of_logs (h.congr rfl rfl) rfl (by simp [countDown, Machine.idle])
  have hask : ∀ {n : Machine η}, n.Keeps get k → n.askStatus.Written get k n.host := fun h =>
    Outcome.written_of_logs (h.congr rfl rfl) rfl (by simp [askStatus])
  exact (((h.perform f).andThen hcount).andThen soundBuzzer).andThen hask

theorem tick (h : m.Keeps get k) : m.tick.Written get k m.host := by
  cases hx : m.executed? with
  | none =>
    obtain ⟨st, hm⟩ := machine_tick_of_not_executed hx
    refine Outcome.written_of_logs (h.congr (by rw [hm]) (by rw [hm])) (by rw [hm]) ?_
    rw [events_tick_of_not_executed hx]
    simp
  | some op =>
    obtain ⟨hs, hf, i, -, hu⟩ := executed?_eq_some_iff.1 hx
    obtain ⟨op', hf', -, ht⟩ := tick_eq_complete hs hu
    obtain rfl : op' = op := Except.ok.inj (hf'.symm.trans hf)
    rw [ht]
    exact (h.report _).andThen fun h =>
      complete (h.congr (n := m.adopt _) rfl rfl) i.effect

theorem ticks (h : m.Keeps get k) (t : ℕ) :
    (Action.performAll m (List.replicate t .tick)).Written get k m.host := by
  induction t generalizing m with
  | zero => exact h.idle
  | succ t ih =>
    have htick : m.tick.forget.Written get k m.host := h.tick.congr rfl rfl
    exact htick.andThen fun h => ih h

/-! ### Commands -/

theorem advanceBy {p : Progress η} {h : η} (hp : p.outcome.Written get k h) (t : ℕ) :
    (p.advanceBy t).outcome.Written get k h := by
  have hforget : (p.advanceBy t).outcome.forget.Written get k h := by
    rw [Progress.forget_outcome_advanceBy]
    exact hp.andThen fun h => h.ticks t
  exact hforget.congr rfl rfl

theorem step (h : m.Keeps get k) (n : ℕ) : (m.step n).Written get k m.host := by
  unfold Machine.step
  rw [Progress.stepFor_eq_advanceBy]
  exact advanceBy (h.idle.congr rfl rfl) _

theorem runFor (h : m.Keeps get k) (n : ℕ) : (m.runFor n).Written get k m.host := by
  have hbegin : m.beginRun.outcome.Written get k m.host := (h.report _).congr rfl rfl
  unfold Machine.runFor
  rw [Progress.runFor_eq_advanceBy]
  refine (advanceBy hbegin _).andThen fun h => ?_
  refine Outcome.written_of_logs (h.congr rfl rfl) rfl ?_
  split <;> simp

theorem reset (h : m.Keeps get k) : m.reset.Written get k m.host := by
  have hblank : Machine.Keeps { m with state := m.state.reset, status := .ready } get k :=
    h.congr rfl rfl
  exact (hblank.report _).andThen showFrame

theorem loadProgram (h : m.Keeps get k) (rom : List UInt8) :
    (m.loadProgram rom).Written get k m.host :=
  Outcome.written_of_logs (h.congr rfl rfl) rfl (m.logs_loadProgram rom)

theorem reply?_addDisplay {d : Display η} {h : η} {e : Event} {r : Reply η}
    (hr : (m.addDisplay d).reply? h e = some r) :
    m.reply? h e = some r ∨ ∃ f, e = .shown m.displays.length f ∧ r = d f h := by
  cases e with
  | shown j f =>
    have hr' : ((m.displays ++ [d])[j]?).map (fun d => d f h) = some r := hr
    rw [List.getElem?_append] at hr'
    split at hr'
    · exact .inl hr'
    · next hj =>
      obtain ⟨d', hd', rfl⟩ := Option.map_eq_some_iff.1 hr'
      obtain ⟨hlt, rfl⟩ := List.getElem?_eq_some_iff.1 hd'
      obtain rfl : j = m.displays.length := by
        rw [List.length_singleton] at hlt
        omega
      exact .inr ⟨f, rfl, by simp⟩
  | _ => exact .inl hr

/-- The display that is added at the place in question writes, and others do not. -/
theorem addDisplay (h : m.Keeps get k) {d : Display η}
    (hd : if m.displays.length = k then d.Writes get else ∀ f h, get (d f h).host = get h) :
    (m.addDisplay d).Keeps get k where
  picture hr := by
    rcases reply?_addDisplay hr with hr | ⟨f, he, rfl⟩
    · exact h.picture hr
    · obtain ⟨rfl, rfl⟩ := Event.shown.inj he
      rw [if_pos rfl] at hd
      exact hd _ _
  other hr he := by
    rcases reply?_addDisplay hr with hr | ⟨f, rfl, rfl⟩
    · exact h.other hr he
    · rw [if_neg fun hk => he f (by rw [hk])] at hd
      exact hd _ _

theorem setBuzzer (h : m.Keeps get k) {b : Buzzer η} (hb : ∀ on h, get (b on h).host = get h) :
    (m.setBuzzer b).Keeps get k where
  picture hr := h.picture hr
  other {g e r} hr he := by
    cases e with
    | buzzed on =>
      obtain rfl := Option.some.inj hr
      exact hb on g
    | log record => cases hr
    | shown j f => exact h.other (e := .shown j f) hr he

theorem perform? {c : Command η} {o : Outcome η Command.Answer} (h : m.Keeps get k)
    (hc : c.Spares get) (hk : ∀ d, c = .addDisplay d → m.displays.length ≠ k)
    (ho : c.perform? m = some o) : o.Written get k m.host := by
  cases c with
  | loadProgram rom => cases ho; exact (h.loadProgram rom).congr rfl rfl
  | reset => cases ho; exact h.reset.congr rfl rfl
  | tick => cases ho; exact h.tick.congr rfl rfl
  | step n => cases ho; exact (h.step n).congr rfl rfl
  | runFor n => cases ho; exact (h.runFor n).congr rfl rfl
  | start fuel =>
    obtain ⟨q, hq, rfl⟩ := Option.map_eq_some_iff.1 ho
    rw [← Machine.runFor_of_runWithin? hq le_rfl]
    exact (h.runFor fuel).congr rfl rfl
  | requestStop =>
    cases ho
    exact (h.congr (n := m.requestStop) rfl rfl).idle.congr rfl rfl
  | addDisplay d =>
    cases ho
    have hadded := h.addDisplay (d := d) (by rw [if_neg (hk d rfl)]; exact hc)
    exact hadded.idle.congr rfl rfl
  | setBuzzer b => cases ho; exact (h.setBuzzer hc).idle.congr rfl rfl
  | updateHost change =>
    cases ho
    exact Outcome.written_of_logs (h.congr rfl rfl) (hc m.host)
      (by simp [Command.silently, Machine.updateHost, Machine.accept])

end Machine.Keeps

namespace Command

variable {m : Machine η} {get : η → Writer} {cs : List (Command η)} {o : Outcome η Unit}

/-- Commands that leave the writer alone, all of them before or all of them after the addition of
the display with place `k`. -/
theorem written_of_spares (h : m.Keeps get k) (hcs : ∀ c ∈ cs, c.Spares get)
    (ho : performAll? m cs = some o)
    (hk : o.machine.displays.length ≤ k ∨ k < m.displays.length) : o.Written get k m.host := by
  induction cs generalizing m o with
  | nil => cases ho; exact h.idle
  | cons c cs ih =>
    obtain ⟨o₁, o₂, hc, hrest, rfl⟩ := performAll?_cons_eq_some_iff.1 ho
    have hafter := (displays_prefix_of_performAll? hrest).length_le
    have hplace : ∀ d, c = .addDisplay d → m.displays.length ≠ k := by
      rintro d rfl hm
      cases hc
      have hmore : m.displays.length + 1 ≤ o₂.machine.displays.length := by
        simpa [silently, Machine.idle, Machine.addDisplay] using hafter
      exact hk.elim (fun hle => by have := hmore.trans hle; omega) fun hlt => by omega
    have hfirst := h.perform? (hcs c List.mem_cons_self) hplace hc
    have hgrows : m.displays.length ≤ o₁.machine.displays.length := by
      rw [(matches_of_perform? hc).1]
      exact (Action.displays_prefix_performAll m _).length_le
    exact hfirst.andThen fun h => ih h (fun c hmem => hcs c (List.mem_cons_of_mem _ hmem)) hrest
      (hk.imp_right fun hlt => hlt.trans_le hgrows)

/-- **The writer of a display.**  What is left there, after any commands, is what it makes of the
pictures that the display is shown, and with each of these its reports follow. -/
theorem written_performAll? {before after : List (Command η)} {d : Display η}
    {o₁ : Outcome η Unit} (hm : m.Keeps get o₁.machine.displays.length) (hd : d.Writes get)
    (hbefore : ∀ c ∈ before, c.Spares get) (hafter : ∀ c ∈ after, c.Spares get)
    (h₁ : performAll? m before = some o₁)
    (h : performAll? m (before ++ .addDisplay d :: after) = some o) :
    o.Written get o₁.machine.displays.length m.host := by
  obtain ⟨o₁', o₂, hb, hrest, rfl⟩ := performAll?_append_eq_some_iff.1 h
  obtain rfl : o₁ = o₁' := Option.some.inj (h₁.symm.trans hb)
  obtain ⟨o₃, o₄, hc, ha, rfl⟩ := performAll?_cons_eq_some_iff.1 hrest
  cases hc
  refine (written_of_spares hm hbefore h₁ (.inl le_rfl)).andThen fun h => ?_
  have hadded := h.addDisplay (d := d) (by rw [if_pos rfl]; exact hd)
  refine (hadded.idle.congr (p := silently (o₁.machine.addDisplay d).idle) rfl rfl).andThen
    fun h => ?_
  refine written_of_spares h hafter ha (.inr ?_)
  simp [silently, Machine.idle, Machine.addDisplay]

end Command

end ChipEight
