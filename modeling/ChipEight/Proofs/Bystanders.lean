import ChipEight.Proofs.Buzzer

/-!
# Displays that the machine does not notice

A display that requests no stop and leaves alone what the rest of the host depends on may stand
anywhere among the others: the machine does the same with it and without it, all displays are shown
the same pictures, and the buzzer is told the same.

* `Display.beside`, `Buzzer.beside`, `Command.beside`: the parts of a host with something beside it;
* `Display.Aside`: a display that touches only what is beside the host;
* `Joined`: displays, and the same among others that stand aside;
* `Machine.Beside`, `Outcome.Beside`: a machine without and with displays that stand aside;
* `Outcome.Beside.andThen`, `Machine.Beside.tick`, `Machine.Beside.perform?`: nothing tells the two
  apart;
* `Machine.Beside.performAll?`: nor do commands between which displays are added.
-/

namespace ChipEight

variable {η τ α β : Type}

/-! ### Something beside a host -/

/-- The reply of a host that leaves alone what is beside it. -/
def Reply.beside (r : Reply η) (t : τ) : Reply (η × τ) :=
  { host := (r.host, t), stop := r.stop, log := r.log }

/-- A display of a host with something beside it. -/
def Display.beside (d : Display η) : Display (η × τ) := fun f h => (d f h.1).beside h.2

/-- A buzzer of a host with something beside it. -/
def Buzzer.beside (b : Buzzer η) : Buzzer (η × τ) := fun on h => (b on h.1).beside h.2

/-- A command to a machine whose host has something beside it. -/
def Command.beside : Command η → Command (η × τ)
  | loadProgram rom => .loadProgram rom
  | reset => .reset
  | tick => .tick
  | step n => .step n
  | runFor n => .runFor n
  | start fuel => .start fuel
  | requestStop => .requestStop
  | addDisplay d => .addDisplay d.beside
  | setBuzzer b => .setBuzzer b.beside
  | updateHost change => .updateHost fun h => (change h.1).beside h.2

/-- A display that touches only what is beside the host. -/
def Display.Aside (d : Display (η × τ)) : Prop :=
  ∀ f h, (d f h).host.1 = h.1 ∧ (d f h).stop = false

/-- The second displays are the first ones and, among them, others that stand aside. -/
inductive Joined : List (Display η) → List (Display (η × τ)) → Prop
  | nil : Joined [] []
  | own (d : Display η) {ds : List (Display η)} {es : List (Display (η × τ))} :
      Joined ds es → Joined (d :: ds) (d.beside :: es)
  | aside {d : Display (η × τ)} {ds : List (Display η)} {es : List (Display (η × τ))} :
      d.Aside → Joined ds es → Joined ds (d :: es)

namespace Joined

variable {ds : List (Display η)} {es : List (Display (η × τ))}

theorem append {ds' : List (Display η)} {es' : List (Display (η × τ))} (h : Joined ds es)
    (h' : Joined ds' es') : Joined (ds ++ ds') (es ++ es') := by
  induction h with
  | nil => exact h'
  | own d _ ih => exact ih.own d
  | aside hd _ ih => exact ih.aside hd

end Joined

/-- A machine, and the same machine with something beside its host and among its displays some that
touch only this. -/
structure Machine.Beside (m : Machine η) (n : Machine (η × τ)) : Prop where
  config : n.config = m.config
  state : n.state = m.state
  status : n.status = m.status
  random : n.random = m.random
  stop : n.stopRequested = m.stopRequested
  host : n.host.1 = m.host
  keys : ∀ h, n.keys h = m.keys h.1
  displays : Joined m.displays n.displays
  buzzer : n.buzzer = m.buzzer.map Buzzer.beside

/-- A call on the one machine and on the other: both return the same and tell buzzers the same. -/
structure Outcome.Beside (o : Outcome η α) (p : Outcome (η × τ) α) : Prop where
  machine : o.machine.Beside p.machine
  value : p.value = o.value
  buzzes : p.buzzes = o.buzzes

/-- One call after another. -/
theorem Outcome.Beside.andThen {o : Outcome η α} {p : Outcome (η × τ) α} (h : o.Beside p)
    {f : Machine η → Outcome η β} {g : Machine (η × τ) → Outcome (η × τ) β}
    (hf : ∀ {m : Machine η} {n : Machine (η × τ)}, m.Beside n → (f m).Beside (g n)) :
    (o.andThen f).Beside (p.andThen g) where
  machine := (hf h.machine).machine
  value := (hf h.machine).value
  buzzes := by
    rw [Outcome.buzzes_andThen, Outcome.buzzes_andThen, h.buzzes, (hf h.machine).buzzes]

theorem Machine.buzzes_accept (m : Machine η) (r : Reply η) : (m.accept r).buzzes = [] := by
  rw [Outcome.buzzes, calls_accept]
  rfl

theorem Outcome.Beside.silently {o : Outcome η Unit} {p : Outcome (η × τ) Unit}
    (h : o.Beside p) : (Command.silently o).Beside (Command.silently p) :=
  ⟨h.machine, rfl, h.buzzes⟩

theorem Outcome.Beside.withStatus {o : Outcome η Machine.Result}
    {p : Outcome (η × τ) Machine.Result} (h : o.Beside p) :
    (Command.withStatus o).Beside (Command.withStatus p) :=
  ⟨h.machine, congrArg (Except.map some) h.value, h.buzzes⟩

namespace Machine.Beside

variable {m : Machine η} {n : Machine (η × τ)}

/-! ### Replies -/

theorem idle (h : m.Beside n) : m.idle.Beside n.idle := ⟨h, rfl, rfl⟩

theorem report (h : m.Beside n) (r s : LogRecord) : (m.report r).Beside (n.report s) :=
  ⟨h, rfl, rfl⟩

theorem respond (h : m.Beside n) {r : Reply η} {s : Reply (η × τ)} (hhost : s.host.1 = r.host)
    (hstop : s.stop = r.stop) : (m.respond r).Beside (n.respond s) :=
  { h with
    host := hhost
    stop := congrArg₂ or h.stop hstop }

theorem accept (h : m.Beside n) {r : Reply η} {s : Reply (η × τ)} (hhost : s.host.1 = r.host)
    (hstop : s.stop = r.stop) : (m.accept r).Beside (n.accept s) where
  machine := h.respond hhost hstop
  value := rfl
  buzzes := by rw [buzzes_accept, buzzes_accept]

/-- The reply of a display that stands aside goes unnoticed. -/
theorem respond_aside (h : m.Beside n) {d : Display (η × τ)} (hd : d.Aside) (f : Frame) :
    m.Beside (n.respond (d f n.host)) :=
  { h with
    host := (hd f n.host).1.trans h.host
    stop := (congrArg₂ or h.stop (hd f n.host).2).trans (Bool.or_false _) }

/-! ### Displays and buzzer -/

/-- The picture is shown on all displays, on those that stand aside unnoticed. -/
theorem showOn {ds : List (Display η)} {es : List (Display (η × τ))} (hes : Joined ds es) :
    ∀ {m : Machine η} {n : Machine (η × τ)} (_ : m.Beside n) (j k : ℕ),
      (m.showOn j ds).Beside (n.showOn k es) := by
  -- the places of a display among the others differ, and so do the machines that it finds
  induction hes with
  | nil => exact fun h _ _ => h.idle
  | own d _ ih =>
    intro m n h j k
    refine Outcome.Beside.andThen (o := ⟨m, #[.shown j m.state.frame], ()⟩)
      (p := ⟨n, #[.shown k n.state.frame], ()⟩) ⟨h, rfl, rfl⟩ fun {m n} h => ?_
    refine Outcome.Beside.andThen (h.accept ?_ ?_) fun h => ih h (j + 1) (k + 1)
    · show (d n.state.frame n.host.1).host = _
      rw [h.state, h.host]
    · show (d n.state.frame n.host.1).stop = _
      rw [h.state, h.host]
  | aside hd _ ih =>
    intro m n h j k
    have hrest := ih (h.respond_aside hd n.state.frame) j (k + 1)
    refine ⟨hrest.machine, rfl, Eq.trans ?_ hrest.buzzes⟩
    rw [Machine.showOn, Outcome.buzzes_andThen, Outcome.buzzes_andThen, buzzes_accept]
    rfl

theorem showFrame (h : m.Beside n) : m.showFrame.Beside n.showFrame :=
  (h.report _ _).andThen fun h => h.showOn h.displays 0 0

theorem soundBuzzer (h : m.Beside n) : m.soundBuzzer.Beside n.soundBuzzer := by
  unfold Machine.soundBuzzer
  rw [h.buzzer]
  cases m.buzzer with
  | none => exact h.idle
  | some b =>
    have hcall : (Outcome.mk m #[.buzzed (decide (m.state.soundTimer ≠ 0))] ()).Beside
        (Outcome.mk n #[.buzzed (decide (n.state.soundTimer ≠ 0))] ()) :=
      ⟨h, rfl, by rw [h.state]; rfl⟩
    refine hcall.andThen fun {m' n'} h' => h'.accept ?_ ?_
    · show (b (decide (n.state.soundTimer ≠ 0)) n'.host.1).host = _
      rw [h.state, h'.host]
    · show (b (decide (n.state.soundTimer ≠ 0)) n'.host.1).stop = _
      rw [h.state, h'.host]

/-! ### Ticks -/

theorem perform (h : m.Beside n) (e : Effect) : (m.perform e).Beside (n.perform e) := by
  cases e with
  | proceed => exact h.idle
  | redraw => exact h.showFrame
  | exit code =>
    refine Outcome.Beside.andThen (f := fun m => Machine.idle { m with status := .exited code })
      (g := fun n => Machine.idle { n with status := .exited code }) (h.report _ _) fun h => ?_
    exact ⟨{ h with status := rfl }, rfl, rfl⟩

theorem countDown (h : m.Beside n) : m.countDown.Beside n.countDown :=
  ⟨{ h with state := congrArg State.countDown h.state }, rfl, rfl⟩

theorem askStatus (h : m.Beside n) : m.askStatus.Beside n.askStatus :=
  ⟨h, congrArg Except.ok h.status, rfl⟩

theorem halt (h : m.Beside n) (e : Fault) : (m.halt e).Beside (n.halt e) :=
  ⟨{ h with status := rfl }, rfl, rfl⟩

theorem conclude (h : m.Beside n) (r : Except Fault Effect) :
    (m.conclude r).Beside (n.conclude r) := by
  cases r with
  | error e => exact h.halt e
  | ok e => exact (((h.perform e).andThen countDown).andThen soundBuzzer).andThen askStatus

/-- Both machines answer instructions the same. -/
theorem surroundings_eq (h : m.Beside n) : n.surroundings = m.surroundings := by
  have hkeys : n.keys n.host = m.keys m.host := by rw [h.keys, h.host]
  rw [surroundings, surroundings, h.config, hkeys]

theorem adopt (h : m.Beside n) (x : Executed) : (m.adopt x).Beside (n.adopt x) :=
  { h with state := rfl, random := rfl }

theorem executeNext (h : m.Beside n) : m.executeNext.Beside n.executeNext := by
  unfold Machine.executeNext
  rw [h.state]
  cases m.state.fetch with
  | error e => exact h.halt e
  | ok op =>
    refine (h.report _ _).andThen fun {m n} h => ?_
    show (Machine.conclude (m.adopt (execute m.surroundings m.random m.state op)) _).Beside
      (Machine.conclude (n.adopt (execute n.surroundings n.random n.state op)) _)
    rw [h.surroundings_eq, h.random, h.state]
    exact (h.adopt _).conclude _

/-- Nothing that a tick does tells the machines apart. -/
theorem tick (h : m.Beside n) : m.tick.Beside n.tick := by
  unfold Machine.tick
  rw [h.status]
  cases m.status with
  | ready => exact h.executeNext
  | exited code => exact ⟨h, rfl, rfl⟩
  | faulted e => exact ⟨h, rfl, rfl⟩

end Machine.Beside

/-! ### Steps and runs -/

/-- Calls that may not come to an end, put in another form. -/
theorem rel_map {α' β' : Type} {r : α → β → Prop} {s : α' → β' → Prop} {f : α → α'} {g : β → β'}
    {x : Option α} {y : Option β} (h : Option.Rel r x y) (hfg : ∀ {a b}, r a b → s (f a) (g b)) :
    Option.Rel s (x.map f) (y.map g) := by
  cases h with
  | some hab => exact .some (hfg hab)
  | none => exact .none

/-- Ticks of the one machine and of the other. -/
structure Progress.Beside (p : Progress η) (q : Progress (η × τ)) : Prop where
  outcome : p.outcome.Beside q.outcome
  ticks : q.ticks = p.ticks
  halted : q.halted = p.halted

namespace Progress.Beside

variable {p : Progress η} {q : Progress (η × τ)}

theorem start {o : Outcome η Unit} {o' : Outcome (η × τ) Unit} (h : o.Beside o') :
    (Progress.start o).Beside (Progress.start o') :=
  ⟨h.andThen Machine.Beside.askStatus, rfl, rfl⟩

theorem advance (h : p.Beside q) : p.advance.Beside q.advance := by
  have htick := h.outcome.andThen Machine.Beside.tick
  obtain ⟨o, k, b⟩ := p
  obtain ⟨o', k', b'⟩ := q
  obtain rfl : k' = k := h.ticks
  unfold Progress.advance
  simp only [htick.value]
  split
  · exact ⟨htick, rfl, rfl⟩
  · exact ⟨htick, rfl, rfl⟩
  · exact ⟨htick, rfl, rfl⟩

theorem isOver (h : p.Beside q) : q.isOver = p.isOver := by
  rw [Progress.isOver, Progress.isOver, h.halted, h.outcome.machine.stop]

theorem stepFor (h : p.Beside q) (k : ℕ) : (p.stepFor k).Beside (q.stepFor k) := by
  induction k generalizing p q with
  | zero => exact h
  | succ k ih =>
    rw [Progress.stepFor_succ, Progress.stepFor_succ, h.halted]
    split
    · exact h
    · exact ih h.advance

theorem runFor (h : p.Beside q) (k : ℕ) : (p.runFor k).Beside (q.runFor k) := by
  induction k generalizing p q with
  | zero => exact h
  | succ k ih =>
    rw [Progress.runFor_succ, Progress.runFor_succ, h.isOver]
    split
    · exact h
    · exact ih h.advance

theorem finish (h : p.Beside q) : p.finish.Beside q.finish := by
  refine h.outcome.andThen fun h' => ⟨{ h' with stop := rfl }, h.outcome.value, ?_⟩
  rw [h.outcome.value, h.ticks]
  rfl

end Progress.Beside

namespace Machine.Beside

variable {m : Machine η} {n : Machine (η × τ)}

theorem step (h : m.Beside n) (k : ℕ) : (m.step k).Beside (n.step k) :=
  ((Progress.Beside.start h.idle).stepFor k).outcome

theorem beginRun (h : m.Beside n) : m.beginRun.Beside n.beginRun :=
  Progress.Beside.start (h.report _ _)

theorem runFor (h : m.Beside n) (k : ℕ) : (m.runFor k).Beside (n.runFor k) :=
  (h.beginRun.runFor k).finish

/-- A run without a budget comes to an end on the one machine if it does on the other. -/
theorem runWithin? (h : m.Beside n) (fuel : ℕ) :
    Option.Rel Outcome.Beside (m.runWithin? fuel) (n.runWithin? fuel) := by
  have hend := h.beginRun.runFor fuel
  unfold Machine.runWithin?
  simp only [hend.isOver]
  split
  · exact .some hend.finish
  · exact .none

/-! ### Commands -/

theorem reset (h : m.Beside n) : m.reset.Beside n.reset := by
  have hnew : Machine.Beside { m with state := State.initial, status := .ready }
      { n with state := State.initial, status := .ready } := { h with state := rfl, status := rfl }
  exact (hnew.report _ _).andThen showFrame

theorem loadProgram (h : m.Beside n) (rom : List UInt8) :
    (m.loadProgram rom).Beside (n.loadProgram rom) := by
  unfold Machine.loadProgram
  rw [h.state]
  refine ⟨{ h with state := rfl }, rfl, ?_⟩
  cases (m.state.loadProgram rom).value <;> rfl

theorem addDisplay (h : m.Beside n) (d : Display η) :
    (m.addDisplay d).Beside (n.addDisplay d.beside) :=
  { h with displays := h.displays.append (Joined.nil.own d) }

theorem addDisplay_aside (h : m.Beside n) {d : Display (η × τ)} (hd : d.Aside) :
    m.Beside (n.addDisplay d) :=
  { h with displays := List.append_nil m.displays ▸ h.displays.append (Joined.nil.aside hd) }

theorem setBuzzer (h : m.Beside n) (b : Buzzer η) : (m.setBuzzer b).Beside (n.setBuzzer b.beside) :=
  { h with buzzer := rfl }

theorem requestStop (h : m.Beside n) : m.requestStop.Beside n.requestStop :=
  { h with stop := rfl }

/-- A command comes to an end on the one machine if it does on the other, and does the same. -/
theorem perform? (h : m.Beside n) (c : Command η) :
    Option.Rel Outcome.Beside (c.perform? m) (c.beside.perform? n) := by
  cases c with
  | loadProgram rom =>
    have hload := h.loadProgram rom
    exact .some ⟨hload.machine, congrArg (Except.map _) hload.value, hload.buzzes⟩
  | reset => exact .some h.reset.silently
  | tick => exact .some h.tick.withStatus
  | step k => exact .some (h.step k).withStatus
  | runFor k => exact .some (h.runFor k).withStatus
  | start fuel => exact rel_map (h.runWithin? fuel) Outcome.Beside.withStatus
  | requestStop => exact .some h.requestStop.idle.silently
  | addDisplay d => exact .some (h.addDisplay d).idle.silently
  | setBuzzer b => exact .some (h.setBuzzer b).idle.silently
  | updateHost change =>
    refine .some (h.accept ?_ ?_).silently
    · show (change n.host.1).host = _
      rw [h.host]
    · show (change n.host.1).stop = _
      rw [h.host]

end Machine.Beside

/-! ### Histories -/

/-- Commands to a machine, and additions of displays of one kind between them. -/
def Command.among {ι : Type} (display : ι → Display (η × τ)) :
    Command η ⊕ ι → Command (η × τ) :=
  Sum.elim Command.beside fun i => .addDisplay (display i)

/-- Commands do not tell the machines apart, even if displays that stand aside are added between
them on one of the machines. -/
theorem Machine.Beside.performAll? {ι : Type} {display : ι → Display (η × τ)}
    (hd : ∀ i, (display i).Aside) {m : Machine η} {n : Machine (η × τ)} (h : m.Beside n)
    (cs : List (Command η ⊕ ι)) :
    Option.Rel Outcome.Beside (Command.performAll? m (cs.filterMap Sum.getLeft?))
      (Command.performAll? n (cs.map (Command.among display))) := by
  induction cs generalizing m n with
  | nil => exact .some h.idle
  | cons c cs ih =>
    cases c with
    | inl c =>
      show Option.Rel _ (Command.performAll? m (c :: cs.filterMap Sum.getLeft?))
        (Command.performAll? n (c.beside :: cs.map (Command.among display)))
      have hc := h.perform? c
      unfold Command.performAll?
      generalize c.perform? m = x at hc ⊢
      generalize c.beside.perform? n = y at hc ⊢
      cases hc with
      | none => exact .none
      | some hfirst =>
        refine rel_map (ih hfirst.machine) fun {o p} hrest => ⟨hrest.machine, rfl, ?_⟩
        show (Outcome.andThen _ fun _ => p).buzzes = (Outcome.andThen _ fun _ => o).buzzes
        rw [Outcome.buzzes_andThen, Outcome.buzzes_andThen, hfirst.buzzes, hrest.buzzes]
    | inr i =>
      -- the addition is a command of its own, during which nothing happens
      have hrest : Option.Rel Outcome.Beside
          ((Command.performAll? m (cs.filterMap Sum.getLeft?)).map id)
          (Command.performAll? n (.addDisplay (display i) :: cs.map (Command.among display))) := by
        refine rel_map (ih (h.addDisplay_aside (hd i))) fun {o p} hrest =>
          ⟨hrest.machine, rfl, ?_⟩
        show (Outcome.andThen n.idle fun _ => p).buzzes = o.buzzes
        rw [Outcome.buzzes_andThen, hrest.buzzes]
        rfl
      rwa [Option.map_id] at hrest

end ChipEight
