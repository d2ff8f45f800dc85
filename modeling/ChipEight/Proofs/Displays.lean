import ChipEight.Proofs.Callbacks
import ChipEight.Proofs.Invariants

/-!
# No display is ever stale

The picture changes at ticks that draw and at resets only, and on each of these occasions all
displays are shown what it has become.  So the last picture that a display was shown is the present
one, whatever has happened since.

* `Outcome.shows`, `Outcome.shownTo`: what all displays, and what a single one, have been shown;
* `Action.redraws`, `Action.allRedraws`: the occasions on which the picture is shown;
* `Action.shows_perform`, `Action.frame_perform`: one action shows the picture or leaves it alone;
* `Action.shows_performAll`, `Action.shownTo_performAll_of_lt`: any number of actions;
* `displays_never_stale`: the main result.
-/

namespace ChipEight

open Opcode

/-! ### What displays are shown -/

/-- The display and the picture of an event that shows one. -/
def Event.shown? : Event → Option (ℕ × Frame)
  | shown k f => some (k, f)
  | _ => none

namespace Outcome

variable {η α β : Type}

/-- The pictures that displays are shown, in order, each with the place of the display. -/
def shows (o : Outcome η α) : List (ℕ × Frame) := o.events.toList.filterMap Event.shown?

/-- The pictures that the display with place `k` is shown. -/
def shownTo (o : Outcome η α) (k : ℕ) : List Frame :=
  o.shows.filterMap fun q => if q.1 = k then some q.2 else none

@[simp] theorem shows_andThen (o : Outcome η α) (f : Machine η → Outcome η β) :
    (o.andThen f).shows = o.shows ++ (f o.machine).shows := by
  simp [shows]

@[simp] theorem shownTo_andThen (o : Outcome η α) (f : Machine η → Outcome η β) (k : ℕ) :
    (o.andThen f).shownTo k = o.shownTo k ++ (f o.machine).shownTo k := by
  simp [shownTo]

theorem shows_eq_filterMap_calls (o : Outcome η α) : o.shows = o.calls.filterMap Event.shown? := by
  rw [shows, calls, List.filterMap_filter]
  refine List.filterMap_congr fun x _ => ?_
  cases x <;> rfl

theorem Matches.shows_eq {o : Outcome η α} {p : Outcome η β} (h : o.Matches p) :
    o.shows = p.shows := by
  rw [shows_eq_filterMap_calls, shows_eq_filterMap_calls, h.calls_eq]

theorem Matches.shownTo_eq {o : Outcome η α} {p : Outcome η β} (h : o.Matches p) (k : ℕ) :
    o.shownTo k = p.shownTo k := by
  rw [shownTo, shownTo, h.shows_eq]

end Outcome

/-- An occasion on which the picture is shown: the number of displays, and the picture. -/
structure Redraw where
  displays : ℕ
  frame : Frame

/-- Every display is shown the picture once, in the order of subscription. -/
def Redraw.shows (q : Redraw) : List (ℕ × Frame) :=
  (List.range q.displays).map fun k => (k, q.frame)

/-- The picture, for the displays there are. -/
def Machine.redraw {η : Type} (m : Machine η) : Redraw := ⟨m.displays.length, m.state.frame⟩

theorem Redraw.filterMap_shows (q : Redraw) (k : ℕ) :
    (q.shows.filterMap fun p => if p.1 = k then some p.2 else none) =
      if k < q.displays then [q.frame] else [] := by
  obtain ⟨n, f⟩ := q
  induction n with
  | zero => rfl
  | succ n ih =>
    simp only [shows, List.range_succ, List.map_append, List.filterMap_append] at ih ⊢
    rw [ih]
    grind

/-! ### Single actions -/

/-- An instruction that asks for no redrawing leaves the picture alone. -/
theorem Instruction.frame_after {c : Surroundings} {r : RandomSource} {s : State} {i : Instruction}
    (h : i.effect ≠ .redraw) : (i.after c r s).frame = s.frame := by
  cases i with
  | clear => exact absurd rfl h
  | draw x y rows => exact absurd rfl h
  | skip condition => rw [Instruction.after_skip]
  | arithmetic operation x y => rw [Instruction.after_arithmetic]
  | _ => rfl

namespace Machine

variable {η : Type} {m : Machine η}

theorem filterMap_showings (m : Machine η) :
    m.showings.filterMap Event.shown? = m.redraw.shows := by
  simp [showings, redraw, Redraw.shows, List.filterMap_map, Function.comp_def, Event.shown?,
    List.filterMap_eq_map']

theorem filterMap_buzzing (m : Machine η) : m.buzzing.filterMap Event.shown? = [] := by
  unfold buzzing
  split <;> rfl

theorem frame_tick_of_not_executed (h : m.executed? = none) :
    m.tick.machine.state.frame = m.state.frame := by
  obtain ⟨st, hm⟩ := machine_tick_of_not_executed h
  rw [hm]

theorem frame_tick_of_executed {op : UInt16} (h : m.executed? = some op) (hop : draws op = false) :
    m.tick.machine.state.frame = m.state.frame := by
  obtain ⟨i, r, hd, hm⟩ := machine_tick_of_executed h
  rw [hm]
  refine Instruction.frame_after fun hi => ?_
  rw [(Instruction.effect_eq_redraw_iff hd).1 hi] at hop
  cases hop

end Machine

namespace Action

variable {η : Type} {m : Machine η} {a : Action η} {as : List (Action η)}

/-- Whether an action shows the picture: a reset does, and a tick that executes a word that
draws. -/
def redraws (m : Machine η) : Action η → Bool
  | tick => m.executed?.any draws
  | reset => true
  | _ => false

theorem shows_perform (m : Machine η) (a : Action η) :
    (a.perform m).shows = if a.redraws m then (a.perform m).machine.redraw.shows else [] := by
  cases a with
  | tick =>
    show m.tick.shows = if m.executed?.any draws then m.tick.machine.redraw.shows else []
    cases hx : m.executed? with
    | none =>
      rw [Outcome.shows_eq_filterMap_calls, Machine.calls_tick_of_not_executed hx]
      rfl
    | some op =>
      rw [Outcome.shows_eq_filterMap_calls, Machine.calls_tick_of_executed hx,
        List.filterMap_append, Machine.filterMap_buzzing, List.append_nil, Option.any_some]
      split
      · exact Machine.filterMap_showings _
      · rfl
  | reset =>
    show m.reset.shows = m.reset.machine.redraw.shows
    rw [Outcome.shows_eq_filterMap_calls, m.calls_reset, Machine.filterMap_showings]
  | loadProgram rom =>
    show (m.loadProgram rom).shows = []
    rw [Outcome.shows_eq_filterMap_calls, m.calls_loadProgram]
    rfl
  | updateHost change =>
    show (m.accept _).shows = []
    rw [Outcome.shows_eq_filterMap_calls, m.calls_accept]
    rfl
  | _ => rfl

theorem frame_perform (h : a.redraws m = false) :
    (a.perform m).machine.state.frame = m.state.frame := by
  cases a with
  | tick =>
    show m.tick.machine.state.frame = _
    cases hx : m.executed? with
    | none => exact Machine.frame_tick_of_not_executed hx
    | some op =>
      refine Machine.frame_tick_of_executed hx ?_
      simpa [redraws, hx] using h
  | reset => cases h
  | loadProgram rom =>
    obtain ⟨mem, hm⟩ := m.exists_machine_loadProgram rom
    show (m.loadProgram rom).machine.state.frame = _
    rw [hm]
  | _ => rfl

/-- Displays are added behind those there are, and stay. -/
theorem displays_prefix_perform (m : Machine η) (a : Action η) :
    m.displays <+: (a.perform m).machine.displays := by
  cases a with
  | tick =>
    show _ <+: m.tick.machine.displays
    rw [m.builtAlike_tick.displays]
  | reset =>
    show _ <+: m.reset.machine.displays
    rw [m.builtAlike_reset.displays]
  | addDisplay d => exact List.prefix_append _ _
  | _ => exact List.prefix_rfl

/-! ### Any number of actions -/

/-- The occasions on which the picture is shown, in order. -/
def allRedraws (m : Machine η) : List (Action η) → List Redraw
  | [] => []
  | a :: as =>
      (if a.redraws m then [(a.perform m).machine.redraw] else []) ++
        allRedraws (a.perform m).machine as

/-- On each occasion, and never else, all displays are shown the picture. -/
theorem shows_performAll (m : Machine η) (as : List (Action η)) :
    (performAll m as).shows = (allRedraws m as).flatMap Redraw.shows := by
  induction as generalizing m with
  | nil => rfl
  | cons a as ih =>
    rw [performAll_cons, Outcome.shows_andThen, shows_perform, ih, allRedraws,
      List.flatMap_append]
    split <;> simp

theorem shownTo_perform (m : Machine η) (a : Action η) (k : ℕ) :
    (a.perform m).shownTo k =
      if a.redraws m = true ∧ k < (a.perform m).machine.displays.length then
        [(a.perform m).machine.state.frame] else [] := by
  rw [Outcome.shownTo, shows_perform]
  by_cases h : a.redraws m = true
  · rw [if_pos h, Redraw.filterMap_shows]
    simp only [h, true_and]
    rfl
  · simp [h]

/-- A display that is there from the beginning is shown the picture on each occasion. -/
theorem shownTo_performAll_of_lt {k : ℕ} (h : k < m.displays.length) :
    (performAll m as).shownTo k = (allRedraws m as).map Redraw.frame := by
  induction as generalizing m with
  | nil => rfl
  | cons a as ih =>
    have hk : k < (a.perform m).machine.displays.length :=
      h.trans_le (displays_prefix_perform m a).length_le
    rw [performAll_cons, Outcome.shownTo_andThen, shownTo_perform, ih hk, allRedraws,
      List.map_append]
    by_cases hr : a.redraws m = true <;> simp [hr, hk, Machine.redraw]

theorem displays_prefix_performAll (m : Machine η) (as : List (Action η)) :
    m.displays <+: (performAll m as).machine.displays :=
  performAll_preserves (P := fun n => m.displays <+: n.displays)
    (fun a _ n hn => hn.trans (displays_prefix_perform n a)) List.prefix_rfl

/-- A display that is not there at the end has been shown nothing. -/
theorem shownTo_performAll_of_le {k : ℕ} (h : (performAll m as).machine.displays.length ≤ k) :
    (performAll m as).shownTo k = [] := by
  induction as generalizing m with
  | nil => rfl
  | cons a as ih =>
    have hk : (a.perform m).machine.displays.length ≤ k :=
      (displays_prefix_performAll _ as).length_le.trans h
    rw [performAll_cons, Outcome.shownTo_andThen, shownTo_perform,
      if_neg fun hr => Nat.not_lt.2 hk hr.2, List.nil_append]
    exact ih h

theorem frame_performAll (h : allRedraws m as = []) :
    (performAll m as).machine.state.frame = m.state.frame := by
  induction as generalizing m with
  | nil => rfl
  | cons a as ih =>
    obtain ⟨ha, has⟩ := List.append_eq_nil_iff.1 h
    have hr : a.redraws m = false := by simpa using ha
    exact (ih has).trans (frame_perform hr)

/-- The last picture that a display has been shown is the present one. -/
theorem frame_of_getLast?_shownTo {k : ℕ} {f : Frame}
    (h : ((performAll m as).shownTo k).getLast? = some f) :
    f = (performAll m as).machine.state.frame := by
  induction as generalizing m with
  | nil => cases h
  | cons a as ih =>
    rw [performAll_cons, Outcome.shownTo_andThen, List.getLast?_append, Option.or_eq_some_iff] at h
    rcases h with hlater | ⟨hnone, hnow⟩
    · exact ih hlater
    · -- the picture was shown by the first action and has not been redrawn since
      rw [shownTo_perform] at hnow
      split at hnow
      · next hr =>
        have hnil : allRedraws (a.perform m).machine as = [] := by
          simpa [shownTo_performAll_of_lt hr.2] using hnone
        obtain rfl := Option.some.inj hnow
        exact (frame_performAll hnil).symm
      · cases hnow

end Action

/-! ### Commands -/

namespace Command

variable {η : Type} {m : Machine η} {cs : List (Command η)} {o : Outcome η Unit}

/-- The occasions on which commands show the picture, in order. -/
def allRedraws (m : Machine η) (cs : List (Command η)) : List Redraw :=
  Action.allRedraws m (allActions m cs)

theorem shows_of_performAll? (h : performAll? m cs = some o) :
    o.shows = (allRedraws m cs).flatMap Redraw.shows := by
  rw [(matches_of_performAll? h).shows_eq]
  exact Action.shows_performAll m _

theorem shownTo_of_performAll?_of_lt (h : performAll? m cs = some o) {k : ℕ}
    (hk : k < m.displays.length) : o.shownTo k = (allRedraws m cs).map Redraw.frame := by
  rw [(matches_of_performAll? h).shownTo_eq]
  exact Action.shownTo_performAll_of_lt hk

theorem shownTo_of_performAll?_of_le (h : performAll? m cs = some o) {k : ℕ}
    (hk : o.machine.displays.length ≤ k) : o.shownTo k = [] := by
  obtain ⟨hm, ht⟩ := matches_of_performAll? h
  rw [Outcome.Matches.shownTo_eq ⟨hm, ht⟩]
  exact Action.shownTo_performAll_of_le (hm ▸ hk)

theorem frame_of_performAll? (h : performAll? m cs = some o) (hnil : allRedraws m cs = []) :
    o.machine.state.frame = m.state.frame := by
  rw [(matches_of_performAll? h).1]
  exact Action.frame_performAll hnil

theorem displays_prefix_of_performAll? (h : performAll? m cs = some o) :
    m.displays <+: o.machine.displays := by
  rw [(matches_of_performAll? h).1]
  exact Action.displays_prefix_performAll m _

/-- Additions of displays leave the state alone. -/
theorem state_of_addDisplay (hcs : ∀ c ∈ cs, ∃ d, c = .addDisplay d)
    (h : performAll? m cs = some o) : o.machine.state = m.state := by
  induction cs generalizing m o with
  | nil => cases h; rfl
  | cons c cs ih =>
    obtain ⟨o₁, o₂, hc, hrest, rfl⟩ := performAll?_cons_eq_some_iff.1 h
    obtain ⟨d, rfl⟩ := hcs c List.mem_cons_self
    cases hc
    have hlast : o₂.machine.state = (m.addDisplay d).state :=
      ih (fun c hmem => hcs c (List.mem_cons_of_mem _ hmem)) hrest
    exact hlast

/-- What a display is shown from its addition on. -/
theorem shownTo_after_addDisplay {before after : List (Command η)} {d : Display η}
    {o₁ : Outcome η Unit} (h : performAll? m (before ++ .addDisplay d :: after) = some o)
    (h₁ : performAll? m before = some o₁) :
    o.machine.displays[o₁.machine.displays.length]? = some d ∧
      o.shownTo o₁.machine.displays.length =
        (allRedraws (o₁.machine.addDisplay d) after).map Redraw.frame ∧
      (o.shownTo o₁.machine.displays.length = [] →
        o.machine.state.frame = o₁.machine.state.frame) := by
  obtain ⟨o₁', o₂, hb, hrest, rfl⟩ := performAll?_append_eq_some_iff.1 h
  obtain rfl : o₁ = o₁' := Option.some.inj (h₁.symm.trans hb)
  obtain ⟨o₃, o₄, hc, hafter, rfl⟩ := performAll?_cons_eq_some_iff.1 hrest
  cases hc
  replace hafter : performAll? (o₁.machine.addDisplay d) after = some o₄ := hafter
  have hlt : o₁.machine.displays.length < (o₁.machine.addDisplay d).displays.length := by
    simp [Machine.addDisplay]
  have hshown := shownTo_of_performAll?_of_lt hafter hlt
  -- before its addition the display has been shown nothing
  have hnone : o₁.shownTo o₁.machine.displays.length = [] :=
    shownTo_of_performAll?_of_le h₁ le_rfl
  have hall : (o₁.andThen fun _ => (silently (o₁.machine.addDisplay d).idle).andThen
      fun _ => o₄).shownTo o₁.machine.displays.length = o₄.shownTo o₁.machine.displays.length := by
    rw [Outcome.shownTo_andThen, hnone, Outcome.shownTo_andThen]
    rfl
  rw [hall, hshown]
  refine ⟨?_, rfl, fun hnil => ?_⟩
  · have hpre := List.prefix_iff_getElem?.1 (displays_prefix_of_performAll? hafter) _ hlt
    refine hpre.trans (congrArg some ?_)
    simp [Machine.addDisplay]
  · have hframe : o₄.machine.state.frame = (o₁.machine.addDisplay d).state.frame :=
      frame_of_performAll? hafter (List.map_eq_nil_iff.1 hnil)
    exact hframe

end Command

/-- **No display is ever stale.**  After any commands, what the displays have been shown is the
picture as it stood at the end of each reset and of each tick that executed a word that draws, in
this order and nothing else, each time on every display there was, in the order of subscription and
by calling it.  A display has been shown just those of these pictures that come after its addition.
So the last picture that a display has been shown is the present one, and if one of those that were
added at the very beginning has been shown none, the picture is dark. -/
theorem displays_never_stale {η : Type} (config : Config) (entropy : ChaCha.Key)
    (keys : η → UInt8 → Bool) (host : η) (cs : List (Command η)) (o : Outcome η Unit)
    (h : Command.performAll? (Machine.create config entropy keys host) cs = some o) :
    o.shows = (Command.allRedraws (Machine.create config entropy keys host) cs).flatMap
        Redraw.shows ∧
      (∀ m : Machine η, m.showFrame.shows = m.redraw.shows ∧
        m.showFrame.machine =
          m.displays.foldl (fun n d => n.respond (d m.state.frame n.host)) m) ∧
      (∀ before d after o₁, cs = before ++ .addDisplay d :: after →
        Command.performAll? (Machine.create config entropy keys host) before = some o₁ →
        let k := o₁.machine.displays.length
        o.machine.displays[k]? = some d ∧
          o.shownTo k =
            (Command.allRedraws (o₁.machine.addDisplay d) after).map Redraw.frame ∧
          ((∀ c ∈ before, ∃ d, c = .addDisplay d) → o.shownTo k = [] →
            o.machine.state.frame = Frame.blank)) ∧
      ∀ k f, (o.shownTo k).getLast? = some f → f = o.machine.state.frame := by
  refine ⟨Command.shows_of_performAll? h, fun m => ⟨?_, ?_⟩, ?_, fun k f hk => ?_⟩
  · rw [Outcome.shows_eq_filterMap_calls, m.calls_showFrame, m.filterMap_showings]
  · exact m.machine_showFrame
  · rintro before d after o₁ rfl h₁
    obtain ⟨hd, hshown, hframe⟩ := Command.shownTo_after_addDisplay h h₁
    refine ⟨hd, hshown, fun hbefore hnil => ?_⟩
    rw [hframe hnil, Command.state_of_addDisplay hbefore h₁]
    rfl
  · obtain ⟨hm, ht⟩ := Command.matches_of_performAll? h
    rw [Outcome.Matches.shownTo_eq ⟨hm, ht⟩] at hk
    rw [hm]
    exact Action.frame_of_getLast?_shownTo hk

/-- A display that answers nothing. -/
def quietDisplay : Display Unit := fun _ h => { host := h }

/-- A display, the program that clears the picture and draws a glyph, a second display between the
two instructions. -/
def twoDisplays : List (Command Unit) :=
  [.addDisplay quietDisplay, .loadProgram [0x00, 0xE0, 0xD0, 0x05], .tick, .addDisplay quietDisplay,
    .step 1]

/-- The first display is shown both pictures and the second one the glyph, and both show it now. -/
theorem displays_never_stale_glyph :
    ∃ o, Command.performAll?
        (Machine.create {} ChaCha.zeroKey (fun (_ : Unit) _ => false) ()) twoDisplays = some o ∧
      (o.shownTo 0).length = 2 ∧ (o.shownTo 1).length = 1 ∧
      (∀ k < 2, (o.shownTo k).getLast? = some o.machine.state.frame) ∧
      o.machine.state.frame ≠ Frame.blank := by
  have hrun : (Command.performAll? (Machine.create {} ChaCha.zeroKey (fun (_ : Unit) _ => false) ())
      twoDisplays).map (fun o => ((o.shownTo 0).length, (o.shownTo 1).length,
        decide (o.machine.state.frame ≠ Frame.blank))) = some (2, 1, true) := by
    decide +kernel
  obtain ⟨o, ho, he⟩ := Option.map_eq_some_iff.1 hrun
  obtain ⟨h0, h1, hframe⟩ : (o.shownTo 0).length = 2 ∧ (o.shownTo 1).length = 1 ∧
      o.machine.state.frame ≠ Frame.blank := by simpa using he
  refine ⟨o, ho, h0, h1, fun k hk => ?_, hframe⟩
  have hne : o.shownTo k ≠ [] := by
    rintro hnil
    interval_cases k
    · rw [hnil] at h0; cases h0
    · rw [hnil] at h1; cases h1
  have hlast := List.getLast?_eq_some_getLast hne
  rw [hlast, (displays_never_stale {} ChaCha.zeroKey _ () twoDisplays o ho).2.2.2 k _ hlast]

end ChipEight
