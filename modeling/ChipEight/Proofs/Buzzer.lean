import ChipEight.Proofs.Timers

/-!
# What the buzzer is told

Each tick that executes a word tells the buzzer, if there is one, whether the sound timer runs at
its end; nothing else tells it anything.  With the law of the sound timer this says how long a tone
lasts: a timer set to `v` is found running `v - 1` times.

* `Outcome.buzzes`: what buzzers are told during a call;
* `Action.buzzes_perform`, `Command.buzzes_of_performAll?`: one action, and any commands;
* `Machine.host_tick_of_executed`: the buzzer is called after the displays;
* `Action.resetSinceExecution`: whether there has been a reset since the last executed word;
* `Action.soundings_of_not_set`: a sound timer that is left to run out;
* `buzzer_follows_sound_timer`: the main result.
-/

namespace ChipEight

open Opcode

/-! ### What buzzers are told -/

/-- What an event tells the buzzer, if it does. -/
def Event.buzzed? : Event → Option Bool
  | buzzed on => some on
  | _ => none

namespace Outcome

variable {η α β : Type}

/-- What buzzers are told during a call, in order. -/
def buzzes (o : Outcome η α) : List Bool := o.calls.filterMap Event.buzzed?

@[simp] theorem buzzes_andThen (o : Outcome η α) (f : Machine η → Outcome η β) :
    (o.andThen f).buzzes = o.buzzes ++ (f o.machine).buzzes := by
  simp [buzzes]

theorem Matches.buzzes_eq {o : Outcome η α} {p : Outcome η β} (h : o.Matches p) :
    o.buzzes = p.buzzes := by
  rw [buzzes, buzzes, h.calls_eq]

end Outcome

theorem State.soundTimer_pos_iff (s : State) :
    0 < s.soundTimer ↔ 0 < (s.timer .sound).toNat := UInt8.lt_iff_toNat_lt

/-- Whether the sound timer runs at the end of each of some executions that find a buzzer. -/
def Execution.soundings {η : Type} (es : List (Execution η)) : List Bool :=
  (es.filter fun e => e.before.buzzer.isSome).map fun e => decide (0 < e.after.state.soundTimer)

/-- The answers of a timer that runs out, the first apart. -/
theorem range_succ_map_lt (v n : ℕ) :
    (List.range (n + 1)).map (fun j => decide (j + 1 < v)) =
      decide (0 < v - 1) :: (List.range n).map fun j => decide (j + 1 < v - 1) := by
  have hlt : ∀ j, (j + 1 < v - 1) = (j.succ + 1 < v) := fun j => propext (by omega)
  have hpos : (0 < v - 1) = (0 + 1 < v) := propext (by omega)
  simp only [List.range_succ_eq_map, List.map_cons, List.map_map, hlt, hpos]
  rfl

/-! ### One tick -/

namespace Machine

variable {η : Type} {m : Machine η} {op : UInt16}

theorem filterMap_buzzed?_showings (m : Machine η) :
    m.showings.filterMap Event.buzzed? = [] := by
  simp [showings, List.filterMap_map, Function.comp_def, Event.buzzed?]

theorem buzzing_eq (m : Machine η) :
    m.buzzing = if m.buzzer.isSome then [.buzzed (decide (0 < m.state.soundTimer))] else [] := by
  simp only [buzzing, UInt8.pos_iff_ne_zero]

/-- The host after the displays have been shown the picture, each given what the one before left. -/
theorem host_showFrame (m : Machine η) :
    m.showFrame.machine.host =
      m.displays.foldl (fun h d => (d m.state.frame h).host) m.host := by
  rw [machine_showFrame]
  generalize m.state.frame = f
  generalize m.displays = ds
  induction ds generalizing m with
  | nil => rfl
  | cons d ds ih => exact ih (m.respond (d f m.host))

theorem host_perform (m : Machine η) (f : Effect) :
    (m.perform f).machine.host =
      if f = .redraw then m.displays.foldl (fun h d => (d m.state.frame h).host) m.host
      else m.host := by
  cases f with
  | proceed => rfl
  | redraw => exact m.host_showFrame
  | exit code => rfl

theorem machine_soundBuzzer_of_some {b : Buzzer η} (hb : m.buzzer = some b) :
    m.soundBuzzer.machine = m.respond (b (decide (0 < m.state.soundTimer)) m.host) := by
  simp only [soundBuzzer, hb, UInt8.pos_iff_ne_zero]
  rfl

/-- The rest of a tick calls the buzzer last, on the host that the displays left. -/
theorem host_complete {b : Buzzer η} (f : Effect) (hs : m.status = .ready)
    (hb : m.buzzer = some b) :
    (m.complete f).machine.host =
      (b (decide (0 < (m.complete f).machine.state.soundTimer))
        (if f = .redraw then
          m.displays.foldl (fun h d => (d (m.complete f).machine.state.frame h).host) m.host
        else m.host)).host := by
  obtain ⟨q, hq⟩ := m.machine_perform f hs
  obtain ⟨⟨r, hr⟩, -⟩ := complete_of_ready m f hs
  have hbuzzer : (m.perform f).machine.countDown.machine.buzzer = some b := by
    rw [hq]; exact hb
  have hstate : (m.perform f).machine.countDown.machine.state = m.state.countDown := by
    rw [hq]; rfl
  have hend : (m.complete f).machine =
      (m.perform f).machine.countDown.machine.respond
        (b (decide (0 < m.state.countDown.soundTimer)) (m.perform f).machine.host) := by
    show (m.perform f).machine.countDown.machine.soundBuzzer.machine = _
    rw [machine_soundBuzzer_of_some hbuzzer, hstate]
    rfl
  have hcomplete : (m.complete f).machine.state = m.state.countDown := by
    rw [hr]; rfl
  rw [hcomplete, hend, host_perform]
  rfl

/-- On a tick that executes a word the buzzer is called last, on the host that the displays left. -/
theorem host_tick_of_executed {b : Buzzer η} (h : m.executed? = some op) (hb : m.buzzer = some b) :
    m.tick.machine.host =
      (b (decide (0 < m.tick.machine.state.soundTimer))
        (if draws op then
          m.displays.foldl (fun h d => (d m.tick.machine.state.frame h).host) m.host
        else m.host)).host := by
  obtain ⟨hs, hf, i, hd, hu⟩ := executed?_eq_some_iff.1 h
  obtain ⟨op', hf', -, ht⟩ := tick_eq_complete hs hu
  obtain rfl : op' = op := Except.ok.inj (hf'.symm.trans hf)
  rw [ht]
  simp only [← Instruction.effect_eq_redraw_iff hd]
  exact host_complete (m := m.adopt _) i.effect hs hb

end Machine

/-! ### One action -/

namespace Action

variable {η : Type} {m : Machine η} {a : Action η} {as : List (Action η)}

/-- An action tells the buzzer whether the sound timer runs if it executes a word, and nothing
otherwise. -/
theorem buzzes_perform (m : Machine η) (a : Action η) :
    (a.perform m).buzzes =
      if (a.execution? m).isSome && m.buzzer.isSome then
        [decide (0 < (a.perform m).machine.state.soundTimer)]
      else [] := by
  cases a with
  | tick =>
    show m.tick.buzzes = if (m.executed?.map _).isSome && m.buzzer.isSome then
      [decide (0 < m.tick.machine.state.soundTimer)] else []
    rw [Outcome.buzzes]
    cases hx : m.executed? with
    | none => rw [Machine.calls_tick_of_not_executed hx]; rfl
    | some op =>
      have hshow : (if draws op then m.tick.machine.showings else []).filterMap Event.buzzed? =
          [] := by
        split
        · exact Machine.filterMap_buzzed?_showings _
        · rfl
      rw [Machine.calls_tick_of_executed hx, List.filterMap_append, hshow, List.nil_append,
        Machine.buzzing_eq, m.builtAlike_tick.buzzer]
      by_cases hb : m.buzzer.isSome = true <;> simp [hb, Event.buzzed?]
  | reset =>
    show m.reset.calls.filterMap Event.buzzed? = []
    rw [m.calls_reset, Machine.filterMap_buzzed?_showings]
  | loadProgram rom =>
    show (m.loadProgram rom).calls.filterMap Event.buzzed? = []
    rw [m.calls_loadProgram]
    rfl
  | updateHost change =>
    show (m.accept _).calls.filterMap Event.buzzed? = []
    rw [m.calls_accept]
    rfl
  | _ => rfl

/-- A buzzer is replaced, never taken away. -/
theorem isSome_buzzer_perform (h : m.buzzer.isSome) : (a.perform m).machine.buzzer.isSome := by
  cases a with
  | tick =>
    show m.tick.machine.buzzer.isSome
    rwa [m.builtAlike_tick.buzzer]
  | reset =>
    show m.reset.machine.buzzer.isSome
    rwa [m.builtAlike_reset.buzzer]
  | setBuzzer b => rfl
  | _ => exact h

theorem soundings_cons_of_some {e : Execution η} (hb : e.before.buzzer.isSome)
    (es : List (Execution η)) :
    Execution.soundings (e :: es) =
      decide (0 < e.after.state.soundTimer) :: Execution.soundings es := by
  simp [Execution.soundings, hb]

theorem soundings_cons_of_none {e : Execution η} (hb : e.before.buzzer = none)
    (es : List (Execution η)) : Execution.soundings (e :: es) = Execution.soundings es := by
  simp [Execution.soundings, hb]

/-- What buzzers are told is what the executions that find one leave of the sound timer. -/
theorem buzzes_performAll (m : Machine η) (as : List (Action η)) :
    (performAll m as).buzzes = Execution.soundings (executions m as) := by
  induction as generalizing m with
  | nil => rfl
  | cons a as ih =>
    rw [performAll_cons, Outcome.buzzes_andThen, buzzes_perform, ih]
    cases hx : a.execution? m with
    | none =>
      rw [executions_cons_of_none hx]
      rfl
    | some e =>
      rw [executions_cons_of_some hx]
      obtain ⟨rfl, rfl, -⟩ := execution?_eq_some_iff.1 hx
      cases hb : e.before.buzzer with
      | none => rw [soundings_cons_of_none hb]; rfl
      | some b => rw [soundings_cons_of_some (by simp [hb])]; rfl

/-! ### A timer that runs out -/

/-- A sound timer that is left alone is found running until it has run out. -/
theorem soundings_of_not_set (hb : m.buzzer.isSome) (hr : .reset ∉ as)
    (h : ∀ e ∈ executions m as, sets .sound e.opcode = false) :
    Execution.soundings (executions m as) =
      (List.range (executions m as).length).map fun j =>
        decide (j + 1 < (m.state.timer .sound).toNat) := by
  induction as generalizing m with
  | nil => rfl
  | cons a as ih =>
    obtain ⟨ha, has⟩ : a ≠ .reset ∧ .reset ∉ as := by simpa [eq_comm] using hr
    have htail := ih (isSome_buzzer_perform (a := a) hb) has
    cases hx : a.execution? m with
    | none =>
      rw [executions_cons_of_none hx] at h ⊢
      rw [htail h, timer_perform_of_no_execution ha hx]
    | some e =>
      rw [executions_cons_of_some hx] at h ⊢
      have hlater := fun e' he' => h e' (List.mem_cons_of_mem e he')
      have hfirst := timer_after_execution hx .sound
      rw [if_neg (by simp [h e List.mem_cons_self])] at hfirst
      obtain ⟨rfl, rfl, -⟩ := execution?_eq_some_iff.1 hx
      rw [soundings_cons_of_some hb, List.length_cons, range_succ_map_lt, ← hfirst]
      simp only [State.soundTimer_pos_iff]
      exact congrArg _ (htail hlater)

/-- A sound timer that has been set and is then left alone is found running until it has run out,
the tick that set it included. -/
theorem soundings_of_set {es fs : List (Execution η)} {e : Execution η} (hr : .reset ∉ as)
    (hes : executions m as = es ++ e :: fs) (hset : sets .sound e.opcode = true)
    (hfs : ∀ f ∈ fs, sets .sound f.opcode = false) (hb : e.before.buzzer.isSome) :
    Execution.soundings (executions m as) =
      Execution.soundings es ++
        (List.range (fs.length + 1)).map fun j =>
          decide (j + 1 < (e.before.state.register (x e.opcode)).toNat) := by
  have hmem : e ∈ executions m as := by simp [hes]
  have hx : e.before.executed? = some e.opcode := executed?_of_mem_executions hmem
  obtain ⟨before, after, rfl, -, -, hafter⟩ := executions_split hes
  have hr' : .reset ∉ after := fun hmem => hr (by simp [hmem])
  have hb' : e.after.buzzer.isSome := isSome_buzzer_perform (a := .tick) hb
  have hfirst := Machine.timer_tick_of_executed hx .sound
  rw [if_pos hset] at hfirst
  have hrest := soundings_of_not_set hb' hr' (by rwa [hafter])
  rw [hafter] at hrest
  have happend : Execution.soundings (es ++ e :: fs) =
      Execution.soundings es ++ Execution.soundings (e :: fs) := by
    simp [Execution.soundings]
  rw [hes, happend, soundings_cons_of_some hb, hrest, range_succ_map_lt, ← hfirst]
  simp only [State.soundTimer_pos_iff]
  rfl

/-! ### Resets -/

/-- Whether, after one more action, there has been a reset since the last executed word; `b` tells
whether there had been one before. -/
def resetAfter (m : Machine η) (b : Bool) : Action η → Bool
  | reset => true
  | a => b && (a.execution? m).isNone

/-- Whether there has been a reset since the last executed word; `b` tells whether there had been
one before the actions. -/
def resetSinceExecution (m : Machine η) (b : Bool) : List (Action η) → Bool
  | [] => b
  | a :: as => resetSinceExecution (a.perform m).machine (a.resetAfter m b) as

/-- What the buzzer was told last, `last`, is still so unless there has been a reset. -/
structure Heard (m : Machine η) (b : Bool) (last : Option Bool) : Prop where
  buzzer : last.isSome → m.buzzer.isSome
  current : b = false → ∀ on, last = some on → on = decide (0 < m.state.soundTimer)

theorem Heard.perform {b : Bool} {last : Option Bool} (h : Heard m b last) (a : Action η) :
    Heard (a.perform m).machine (a.resetAfter m b) ((a.perform m).buzzes.getLast?.or last) := by
  cases hx : a.execution? m with
  | none =>
    have hnil : (a.perform m).buzzes = [] := by simp [buzzes_perform, hx]
    rw [hnil]
    refine ⟨fun hs => isSome_buzzer_perform (h.buzzer hs), fun hb on hon => ?_⟩
    have hne : a ≠ .reset := by
      rintro rfl
      cases hb
    have hstate := state_perform_of_no_execution hne hx
    have hb' : b = false := by
      cases a <;> simp_all [resetAfter]
    rw [hstate]
    exact h.current hb' on hon
  | some e =>
    -- the buzzer has just been told, if there is one
    have hbuzzes := buzzes_perform m a
    rw [hx, Option.isSome_some, Bool.true_and] at hbuzzes
    cases hm : m.buzzer with
    | none =>
      have hlast : last = none := by simpa [hm] using h.buzzer
      rw [hbuzzes, hm, hlast]
      exact ⟨fun hs => absurd hs (by simp), fun _ on hon => absurd hon (by simp)⟩
    | some b' =>
      rw [hbuzzes, hm]
      exact ⟨fun _ => isSome_buzzer_perform (by simp [hm]),
        fun _ on hon => (Option.some.inj hon).symm⟩

theorem last_buzz_performAll {b : Bool} {last : Option Bool} (h : Heard m b last)
    (as : List (Action η)) :
    Heard (performAll m as).machine (resetSinceExecution m b as)
      ((performAll m as).buzzes.getLast?.or last) := by
  induction as generalizing m b last with
  | nil => exact h
  | cons a as ih =>
    rw [performAll_cons, Outcome.buzzes_andThen, List.getLast?_append, Option.or_assoc]
    exact ih (h.perform a)

end Action

/-! ### Commands -/

namespace Command

variable {η : Type} {m : Machine η} {cs : List (Command η)} {o : Outcome η Unit}

/-- Whether there has been a reset since the last word that commands have executed. -/
def resetSinceExecution (m : Machine η) (cs : List (Command η)) : Bool :=
  Action.resetSinceExecution m false (allActions m cs)

theorem buzzes_of_performAll? (ho : performAll? m cs = some o) :
    o.buzzes = Execution.soundings (executions m cs) :=
  (matches_of_performAll? ho).buzzes_eq.trans (Action.buzzes_performAll m _)

theorem buzzes_of_performAll?_of_set {es fs : List (Execution η)} {e : Execution η}
    (hr : .reset ∉ cs) (ho : performAll? m cs = some o) (hes : executions m cs = es ++ e :: fs)
    (hset : sets .sound e.opcode = true) (hfs : ∀ f ∈ fs, sets .sound f.opcode = false)
    (hb : e.before.buzzer.isSome) :
    o.buzzes = Execution.soundings es ++
      (List.range (fs.length + 1)).map fun j =>
        decide (j + 1 < (e.before.state.register (x e.opcode)).toNat) := by
  rw [buzzes_of_performAll? ho]
  exact Action.soundings_of_set (fun hmem => hr (reset_mem_of_mem_allActions hmem)) hes hset hfs hb

/-- What a buzzer has been told last is still so, unless there has been a reset. -/
theorem last_buzz_of_performAll? (ho : performAll? m cs = some o)
    (hr : resetSinceExecution m cs = false) {on : Bool} (hon : o.buzzes.getLast? = some on) :
    on = decide (0 < o.machine.state.soundTimer) := by
  have hmatch := matches_of_performAll? ho
  have hheard : Action.Heard m false none :=
    ⟨fun hs => absurd hs (by simp), fun _ on hon => absurd hon (by simp)⟩
  rw [hmatch.buzzes_eq] at hon
  rw [hmatch.1]
  exact (Action.last_buzz_performAll hheard (allActions m cs)).current hr on (by rw [hon]; rfl)

end Command

/-- **The buzzer follows the sound timer.**  During any commands, buzzers are told, once for each
executed word that finds one, whether the sound timer runs at the end of its tick, and nothing else.
A single action tells the buzzer that is there so if it is a tick that executes a word, an exit
included, and otherwise tells it nothing, so neither does a tick that faults or finds the machine
halted; the tick calls it after the displays and with the timers counted down.  Hence what a buzzer
was told last is still so, unless there has been a reset since the last executed word.  And a word
that sets the sound timer to `v`, with no other such word after it, brings the answers `v > 1`,
`v > 2` and so on, one for its own tick and one for each word executed since; with `v` zero or one
no tone is heard. -/
theorem buzzer_follows_sound_timer {η : Type} (m : Machine η) (cs : List (Command η))
    (o : Outcome η Unit) (h : Command.performAll? m cs = some o) :
    o.buzzes = Execution.soundings (Command.executions m cs) ∧
      (∀ (n : Machine η) (a : Action η),
        (a.perform n).buzzes =
          if (a.execution? n).isSome && n.buzzer.isSome then
            [decide (0 < (a.perform n).machine.state.soundTimer)]
          else []) ∧
      (∀ n : Machine η, Action.tick.execution? n = none ↔
        n.status ≠ .ready ∨ ∃ e, n.tick.value = .error e) ∧
      (∀ (n : Machine η) (op : UInt16) (b : Buzzer η), n.executed? = some op → n.buzzer = some b →
        let on := decide (0 < n.tick.machine.state.soundTimer)
        n.tick.calls =
            (if draws op then n.tick.machine.showings else []) ++ [.buzzed on] ∧
          n.tick.machine.host =
            (b on
              (if draws op then
                n.displays.foldl (fun h d => (d n.tick.machine.state.frame h).host) n.host
              else n.host)).host) ∧
      (∀ on, o.buzzes.getLast? = some on → Command.resetSinceExecution m cs = false →
        on = decide (0 < o.machine.state.soundTimer)) ∧
      ∀ (es fs : List (Execution η)) (e : Execution η), .reset ∉ cs →
        Command.executions m cs = es ++ e :: fs → sets .sound e.opcode = true →
        (∀ f ∈ fs, sets .sound f.opcode = false) → e.before.buzzer.isSome →
        let v := (e.before.state.register (x e.opcode)).toNat
        o.buzzes = Execution.soundings es ++
            (List.range (fs.length + 1)).map (fun j => decide (v > j + 1)) ∧
          (v ≤ 1 → o.buzzes = Execution.soundings es ++ List.replicate (fs.length + 1) false) := by
  refine ⟨Command.buzzes_of_performAll? h, Action.buzzes_perform,
    fun n => Option.map_eq_none_iff.trans Machine.executed?_eq_none_iff_fault,
    fun n op b hx hb => ⟨?_, ?_⟩,
    fun on hon hr => Command.last_buzz_of_performAll? h hr hon,
    fun es fs e hr hes hset hfs hb => ?_⟩
  · rw [Machine.calls_tick_of_executed hx, Machine.buzzing_eq, n.builtAlike_tick.buzzer, hb]
    rfl
  · exact Machine.host_tick_of_executed hx hb
  · have hall := Command.buzzes_of_performAll?_of_set hr h hes hset hfs hb
    refine ⟨hall, fun hv => ?_⟩
    rw [hall]
    congr 1
    rw [List.eq_replicate_iff]
    refine ⟨by simp, fun on hon => ?_⟩
    obtain ⟨j, -, rfl⟩ := List.mem_map.1 hon
    exact decide_eq_false (by omega)

/-- A buzzer that answers nothing. -/
def quietBuzzer : Buzzer Unit := fun _ h => { host := h }

/-- A buzzer, and a program that sets the sound timer to two and then jumps in place. -/
def toneProgram : List (Command Unit) :=
  [.setBuzzer quietBuzzer, .loadProgram [0x6A, 0x02, 0xFA, 0x18, 0x12, 0x04], .step 4]

/-- A sound timer set to two is found running once. -/
theorem buzzer_follows_sound_timer_two :
    ∃ o es e fs, Command.performAll? poweredOn toneProgram = some o ∧
      Command.executions poweredOn toneProgram = es ++ e :: fs ∧ e.opcode = 0xFA18 ∧
      o.buzzes = Execution.soundings es ++ [true, false, false] ∧
      decide (0 < o.machine.state.soundTimer) = false ∧
      e.before.tick.calls = [.buzzed (decide (0 < e.after.state.soundTimer))] := by
  have hr : .reset ∉ toneProgram := by simp [toneProgram]
  have hsome : (Command.performAll? poweredOn toneProgram).isSome := by decide +kernel
  have hsince : Command.resetSinceExecution poweredOn toneProgram = false := by decide +kernel
  have hes : (Command.executions poweredOn toneProgram).map
      (fun e => (e.opcode, e.before.state.register (x e.opcode), e.before.buzzer.isSome)) =
        [(0x6A02, 0, true), (0xFA18, 2, true), (0x1204, 0, true), (0x1204, 0, true)] := by
    decide +kernel
  obtain ⟨o, ho⟩ := Option.isSome_iff_exists.1 hsome
  obtain ⟨e₀, es, hes₀, -, hrest⟩ := List.map_eq_cons_iff.1 hes
  obtain ⟨e, fs, rfl, he, hfs⟩ := List.map_eq_cons_iff.1 hrest
  obtain ⟨hop, hv, hb⟩ : e.opcode = 0xFA18 ∧ e.before.state.register (x e.opcode) = 2 ∧
      e.before.buzzer.isSome = true := by simpa using he
  have hlen : fs.length = 2 := by simpa using congrArg List.length hfs
  have hquiet : ∀ f ∈ fs, sets .sound f.opcode = false := by
    intro f hf
    have hmem := List.mem_map_of_mem (f := fun e : Execution Unit =>
      (e.opcode, e.before.state.register (x e.opcode), e.before.buzzer.isSome)) hf
    rw [hfs] at hmem
    obtain ⟨hjump, -, -⟩ : f.opcode = 0x1204 ∧ f.before.state.register (x f.opcode) = 0 ∧
        f.before.buzzer.isSome = true := by simpa using hmem
    rw [hjump]
    decide
  have hset : sets .sound e.opcode = true := by rw [hop]; decide
  obtain ⟨-, -, -, htick, hlast, hlaw⟩ := buzzer_follows_sound_timer poweredOn toneProgram o ho
  have hbuzzes := (hlaw [e₀] fs e hr hes₀ hset hquiet hb).1
  rw [hlen, hv] at hbuzzes
  have hmem : e ∈ Command.executions poweredOn toneProgram := by simp [hes₀]
  have hexec : e.before.executed? = some 0xFA18 := by
    rw [← hop]
    exact Action.executed?_of_mem_executions hmem
  obtain ⟨b, hb⟩ := Option.isSome_iff_exists.1 hb
  refine ⟨o, [e₀], e, fs, ho, hes₀, hop, hbuzzes, ?_, (htick _ _ b hexec hb).1⟩
  exact (hlast false (by rw [hbuzzes]; simp [List.getLast?_append, List.range_succ]) hsince).symm

end ChipEight
