import ChipEight.Proofs.ExecutedWords
import ChipEight.Proofs.Nesting
import ChipEight.Proofs.Resets

/-!
# The limit on pending calls

The limit is looked at by a call alone, and only to see whether there is room.  So a machine with a
higher limit goes the same way, command by command and tick by tick, until a call is refused for
want of room; there the higher limit may let it through, and before that nothing tells the two
machines apart.

* `stackBound`: a limit as a number, infinite if there is none;
* `Machine.withStackLimit`: a machine with another limit;
* `Machine.Overflows`, `Action.OverflowFree`: ticks that are refused for want of room;
* `Machine.tick_withStackLimit`, `Action.performAll_withStackLimit`,
  `Command.perform?_withStackLimit`: a higher limit is not noticed by any other tick;
* `Command.history`: the actions of commands, also of a run that does not come to an end;
* `Command.prefix_history_withStackLimit`: a higher limit leaves the same actions to be done;
* `stack_limit_conservative`: the main result.
-/

namespace ChipEight

open Opcode

/-! ### Limits -/

/-- A limit on pending calls as a number, infinite if there is none. -/
def stackBound : Option ℕ → ℕ∞
  | none => ⊤
  | some l => l

theorem coe_le_stackBound_iff {n : ℕ} {limit : Option ℕ} :
    (n : ℕ∞) ≤ stackBound limit ↔ ∀ l, limit = some l → n ≤ l := by
  cases limit <;> simp [stackBound]

theorem coe_lt_stackBound_iff {n : ℕ} {limit : Option ℕ} :
    (n : ℕ∞) < stackBound limit ↔ ∀ l, limit = some l → n < l := by
  cases limit <;> simp [stackBound]

section Limits

variable {l₁ l₂ : Option ℕ} {s : State} {i : Instruction}

/-- An instruction that is not refused for want of room is refused or accepted under a higher limit
as well. -/
theorem Instruction.refusal?_of_le (hl : stackBound l₁ ≤ stackBound l₂)
    (h : ∀ l, i.refusal? l₁ s ≠ some (.stackOverflow l)) : i.refusal? l₂ s = i.refusal? l₁ s := by
  cases i with
  | call a =>
    have hnone : s.callFault? l₁ = none := by
      cases hf : s.callFault? l₁ with
      | none => rfl
      | some e =>
        obtain ⟨l, -, -, rfl⟩ := State.callFault?_eq_some_iff.1 hf
        exact absurd hf (h l)
    have hlt : (s.stack.length : ℕ∞) < stackBound l₁ :=
      coe_lt_stackBound_iff.2 (State.callFault?_eq_none_iff.1 hnone)
    have hnone' : s.callFault? l₂ = none :=
      State.callFault?_eq_none_iff.2 (coe_lt_stackBound_iff.1 (hlt.trans_le hl))
    exact hnone'.trans hnone.symm
  | _ => rfl

theorem State.upcoming_of_le (hl : stackBound l₁ ≤ stackBound l₂)
    (h : ∀ l, s.upcoming l₁ ≠ .error (.stackOverflow l)) : s.upcoming l₂ = s.upcoming l₁ := by
  cases hf : s.fetch with
  | error e => rw [upcoming_of_fetch_error hf, upcoming_of_fetch_error hf]
  | ok op =>
    cases hd : Instruction.decode? op with
    | none => rw [upcoming_of_decode?_eq_none hf hd, upcoming_of_decode?_eq_none hf hd]
    | some i =>
      have hr : i.refusal? l₂ s = i.refusal? l₁ s :=
        Instruction.refusal?_of_le hl fun l hover => h l (upcoming_of_refused hf hd hover)
      cases hr₁ : i.refusal? l₁ s with
      | none => rw [upcoming_of_accepted hf hd (hr.trans hr₁), upcoming_of_accepted hf hd hr₁]
      | some e => rw [upcoming_of_refused hf hd (hr.trans hr₁), upcoming_of_refused hf hd hr₁]

end Limits

/-- The configuration with another limit on pending calls. -/
def Config.withStackLimit (l : Option ℕ) (config : Config) : Config :=
  { config with dialect := { config.dialect with stackLimit := l } }

/-- The surroundings with another limit on pending calls. -/
def Surroundings.withStackLimit (l : Option ℕ) (c : Surroundings) : Surroundings :=
  { c with dialect := { c.dialect with stackLimit := l } }

/-- What an accepted instruction leaves does not depend on the limit. -/
theorem Instruction.after_withStackLimit (l : Option ℕ) (c : Surroundings) (r : RandomSource)
    (s : State) (i : Instruction) : i.after (c.withStackLimit l) r s = i.after c r s := by
  cases i with
  | _ => rfl

/-- A word that is not refused for want of room does the same under a higher limit. -/
theorem execute_withStackLimit {l : Option ℕ} {c : Surroundings} {r : RandomSource} {s : State}
    {op : UInt16} (hl : stackBound c.dialect.stackLimit ≤ stackBound l) (hf : s.fetch = .ok op)
    (h : ∀ k, s.upcoming c.dialect.stackLimit ≠ .error (.stackOverflow k)) :
    execute (c.withStackLimit l) r s op = execute c r s op := by
  have hu : s.upcoming (c.withStackLimit l).dialect.stackLimit =
      s.upcoming c.dialect.stackLimit := State.upcoming_of_le hl h
  cases hc : s.upcoming c.dialect.stackLimit with
  | error e =>
    rw [State.execute_of_upcoming_error hf hc, State.execute_of_upcoming_error hf (hu.trans hc)]
  | ok i =>
    rw [State.execute_of_upcoming_ok hf hc, State.execute_of_upcoming_ok hf (hu.trans hc),
      Instruction.after_withStackLimit]

/-! ### Ticks -/

namespace Machine

variable {η : Type} {m : Machine η} {l : Option ℕ}

/-- The machine with another limit on pending calls. -/
def withStackLimit (l : Option ℕ) (m : Machine η) : Machine η :=
  { m with config := m.config.withStackLimit l }

/-- The next tick of a ready machine is refused for want of room. -/
def Overflows (m : Machine η) : Prop :=
  m.status = .ready ∧ ∃ l, m.tick.value = .error (.stackOverflow l)

/-- As long as the configuration stays, another limit is another configuration. -/
theorem alter_varied {α : Type} {o : Outcome η α} (h : o.machine.config = m.config) :
    o.alter (varied (m.config.withStackLimit l) false) = o.alter (withStackLimit l) := by
  simp [Outcome.alter, varied, withStackLimit, h]

theorem withStackLimit_eq_varied (l : Option ℕ) (m : Machine η) :
    m.withStackLimit l = m.varied (m.config.withStackLimit l) false := by
  simp [varied, withStackLimit]

/-- A tick that is not refused for want of room goes the same way under a higher limit. -/
theorem tick_withStackLimit (hl : stackBound m.config.dialect.stackLimit ≤ stackBound l)
    (h : ¬ m.Overflows) : (m.withStackLimit l).tick = m.tick.alter (withStackLimit l) := by
  by_cases hs : m.status = .ready
  · have hu : ∀ k, m.upcoming ≠ .error (.stackOverflow k) :=
      fun k hk => h ⟨hs, k, (value_tick_eq_error_iff hs).2 hk⟩
    have hx : ∀ op, m.state.fetch = .ok op →
        execute (m.withStackLimit l).surroundings m.random m.state op =
          execute m.surroundings m.random m.state op :=
      fun op hf => execute_withStackLimit (c := m.surroundings) hl hf hu
    rw [withStackLimit_eq_varied] at hx ⊢
    rw [tick_varied _ _ _ hx]
    exact alter_varied m.builtAlike_tick.config
  · rw [tick_of_not_ready hs, tick_of_not_ready (m := m.withStackLimit l) hs]
    rfl

end Machine

/-! ### Actions -/

namespace Action

variable {η : Type} {m : Machine η} {a : Action η} {as bs : List (Action η)} {l : Option ℕ}

/-- None of the ticks among the actions is refused for want of room. -/
def OverflowFree (m : Machine η) : List (Action η) → Prop
  | [] => True
  | a :: as => (a = .tick → ¬ m.Overflows) ∧ OverflowFree (a.perform m).machine as

theorem overflowFree_append_iff :
    OverflowFree m (as ++ bs) ↔ OverflowFree m as ∧ OverflowFree (performAll m as).machine bs := by
  induction as generalizing m with
  | nil => simp [OverflowFree, Machine.idle]
  | cons a as ih =>
    rw [List.cons_append, OverflowFree, OverflowFree, ih, and_assoc]
    rfl

theorem OverflowFree.of_prefix (h : OverflowFree m bs) (hp : as <+: bs) : OverflowFree m as := by
  obtain ⟨cs, rfl⟩ := hp
  exact (overflowFree_append_iff.1 h).1

theorem overflowFree_ticks_iff {k : ℕ} :
    OverflowFree m (List.replicate k .tick) ↔ ∀ i < k, ¬ (m.afterTicks i).Overflows := by
  induction k generalizing m with
  | zero => simp [OverflowFree]
  | succ k ih =>
    have hrest := ih (m := m.tick.machine)
    rw [List.replicate_succ, OverflowFree]
    constructor
    · rintro ⟨hfirst, hlater⟩ i hi
      cases i with
      | zero => exact hfirst rfl
      | succ i => exact hrest.1 hlater i (Nat.lt_of_succ_lt_succ hi)
    · intro h
      exact ⟨fun _ => h 0 k.succ_pos, hrest.2 fun i hi => h (i + 1) (Nat.succ_lt_succ hi)⟩

/-- Ticks in a row of which none is refused for want of room go the same way under a higher
limit. -/
theorem OverflowFree.tick_withStackLimit {k : ℕ}
    (h : OverflowFree m (List.replicate k .tick))
    (hl : stackBound m.config.dialect.stackLimit ≤ stackBound l) {i : ℕ} (hi : i < k) :
    ((m.afterTicks i).withStackLimit l).tick =
      (m.afterTicks i).tick.alter (Machine.withStackLimit l) := by
  refine Machine.tick_withStackLimit ?_ (overflowFree_ticks_iff.1 h i hi)
  rw [Machine.config_afterTicks]
  exact hl

/-- Of all actions only a tick looks at the limit. -/
theorem perform_withStackLimit (hl : stackBound m.config.dialect.stackLimit ≤ stackBound l)
    (h : a = .tick → ¬ m.Overflows) :
    a.perform (m.withStackLimit l) = (a.perform m).alter (Machine.withStackLimit l) := by
  cases a with
  | tick =>
    show (m.withStackLimit l).tick.forget = _
    rw [Machine.tick_withStackLimit hl (h rfl)]
    rfl
  | reset =>
    show (m.withStackLimit l).reset = _
    rw [Machine.withStackLimit_eq_varied, Machine.reset_varied]
    exact Machine.alter_varied m.builtAlike_reset.config
  | _ => rfl

theorem performAll_withStackLimit (hl : stackBound m.config.dialect.stackLimit ≤ stackBound l)
    (h : OverflowFree m as) :
    performAll (m.withStackLimit l) as = (performAll m as).alter (Machine.withStackLimit l) := by
  induction as generalizing m with
  | nil => rfl
  | cons a as ih =>
    obtain ⟨hfirst, hrest⟩ := h
    rw [performAll_cons, performAll_cons, perform_withStackLimit hl hfirst]
    refine Outcome.alter_andThen (ih ?_ hrest)
    rw [config_perform]
    exact hl

end Action

/-! ### Commands -/

namespace Command

variable {η : Type} {m : Machine η} {c : Command η} {cs : List (Command η)}
  {as : List (Action η)} {l : Option ℕ}

/-- The actions of a command, but for the withdrawal of a request to stop that ends a run. -/
def opening (m : Machine η) : Command η → List (Action η)
  | runFor n => List.replicate (m.beginRun.ticksUntil Progress.isOver n) .tick
  | start fuel => List.replicate (m.beginRun.ticksUntil Progress.isOver fuel) .tick
  | c => c.actions m

/-- The withdrawal of a request to stop that ends a run. -/
def ending : Command η → List (Action η)
  | runFor _ => [.setStop false]
  | start _ => [.setStop false]
  | _ => []

/-- The actions of commands one after another.  If a run without a budget is not over within its
fuel, its ticks are the last. -/
def history (m : Machine η) : List (Command η) → List (Action η)
  | [] => []
  | c :: cs =>
      match c.perform? m with
      | none => c.opening m
      | some o => c.actions m ++ history o.machine cs

theorem actions_eq (m : Machine η) (c : Command η) : c.actions m = c.opening m ++ c.ending := by
  cases c <;> simp [actions, opening, ending]

theorem overflowFree_actions_iff :
    Action.OverflowFree m (c.actions m) ↔ Action.OverflowFree m (c.opening m) := by
  rw [actions_eq, Action.overflowFree_append_iff, and_iff_left_iff_imp]
  intro _
  cases c <;> simp [ending, Action.OverflowFree]

theorem history_cons_of_none (h : c.perform? m = none) : history m (c :: cs) = c.opening m := by
  rw [history, h]

theorem history_cons_of_some {o : Outcome η Answer} (h : c.perform? m = some o) :
    history m (c :: cs) = c.actions m ++ history o.machine cs := by
  rw [history, h]

theorem opening_prefix_history : c.opening m <+: history m (c :: cs) := by
  cases h : c.perform? m with
  | none => rw [history_cons_of_none h]
  | some o =>
    rw [history_cons_of_some h, actions_eq, List.append_assoc]
    exact List.prefix_append _ _

/-- Under a higher limit no fewer ticks are made, up to the first that is refused for want of
room. -/
theorem prefix_ticks_withStackLimit {p : Progress η} {ended : Progress η → Bool} {n : ℕ}
    (hl : stackBound p.outcome.machine.config.dialect.stackLimit ≤ stackBound l)
    (he : ∀ q, ended (q.alter (Machine.withStackLimit l)) = ended q)
    (hp : as <+: List.replicate (p.ticksUntil ended n) .tick)
    (h : Action.OverflowFree p.outcome.machine as.dropLast) :
    as <+: List.replicate ((p.alter (Machine.withStackLimit l)).ticksUntil ended n) .tick := by
  obtain ⟨hj, has⟩ := List.prefix_replicate_iff.1 hp
  rw [has, List.dropLast_replicate] at h
  refine List.prefix_replicate_iff.2 ⟨Progress.le_ticksUntil_alter he hj fun i hi => ?_, has⟩
  exact h.tick_withStackLimit hl (by omega)

section HigherLimit

variable (hl : stackBound m.config.dialect.stackLimit ≤ stackBound l)
include hl

theorem runFor_withStackLimit {n : ℕ} (h : Action.OverflowFree m (opening m (.runFor n))) :
    opening (m.withStackLimit l) (.runFor n) = opening m (.runFor n) ∧
      (m.withStackLimit l).beginRun.runFor n =
        (m.beginRun.runFor n).alter (Machine.withStackLimit l) := by
  constructor
  · refine congrArg (fun k => List.replicate k Action.tick) ?_
    exact Progress.ticksUntil_alter (p := m.beginRun) (fun _ => rfl)
      fun i hi => h.tick_withStackLimit hl hi
  · exact Progress.runFor_alter (p := m.beginRun) (fun _ => rfl)
      fun i hi => h.tick_withStackLimit hl hi

/-- A command none of whose ticks is refused for want of room does the same under a higher limit. -/
theorem perform?_withStackLimit (h : Action.OverflowFree m (c.opening m)) :
    c.opening (m.withStackLimit l) = c.opening m ∧
      c.perform? (m.withStackLimit l) =
        (c.perform? m).map (Outcome.alter (Machine.withStackLimit l)) := by
  cases c with
  | tick =>
    refine ⟨rfl, ?_⟩
    simp only [perform?, Machine.tick_withStackLimit hl (h.1 rfl)]
    rfl
  | reset =>
    have hreset : (m.withStackLimit l).reset = m.reset.alter (Machine.withStackLimit l) :=
      Action.perform_withStackLimit (a := .reset) hl fun ha => by cases ha
    refine ⟨rfl, ?_⟩
    simp only [perform?, hreset]
    rfl
  | step n =>
    have hcount : (Progress.start (m.withStackLimit l).idle).ticksUntil Progress.halted n =
        (Progress.start m.idle).ticksUntil Progress.halted n :=
      Progress.ticksUntil_alter (p := Progress.start m.idle) (fun _ => rfl)
        fun i hi => h.tick_withStackLimit hl hi
    have hsteps : (Progress.start (m.withStackLimit l).idle).stepFor n =
        ((Progress.start m.idle).stepFor n).alter (Machine.withStackLimit l) :=
      Progress.stepFor_alter (p := Progress.start m.idle)
        fun i hi => h.tick_withStackLimit hl hi
    refine ⟨congrArg (fun k => List.replicate k Action.tick) hcount, ?_⟩
    simp only [perform?, Machine.step, hsteps]
    rfl
  | runFor n =>
    obtain ⟨hk, hrun⟩ := runFor_withStackLimit hl h
    refine ⟨hk, ?_⟩
    simp only [perform?, Machine.runFor, hrun]
    rfl
  | start fuel =>
    obtain ⟨hk, hrun⟩ := runFor_withStackLimit hl h
    refine ⟨hk, ?_⟩
    have hover : ((m.beginRun.runFor fuel).alter (Machine.withStackLimit l)).isOver =
        (m.beginRun.runFor fuel).isOver := rfl
    simp only [perform?, Machine.runWithin?, hrun, hover]
    split <;> rfl
  | _ => exact ⟨rfl, rfl⟩

/-- Under a higher limit a command does what it does under the lower one, up to the first tick that
is refused there for want of room. -/
theorem prefix_opening_withStackLimit (hp : as <+: c.opening m)
    (h : Action.OverflowFree m as.dropLast) : as <+: c.opening (m.withStackLimit l) := by
  -- only steps and runs have their actions depend on the machine
  cases c with
  | step n => exact prefix_ticks_withStackLimit (p := Progress.start m.idle) hl (fun _ => rfl) hp h
  | runFor n => exact prefix_ticks_withStackLimit (p := m.beginRun) hl (fun _ => rfl) hp h
  | start fuel => exact prefix_ticks_withStackLimit (p := m.beginRun) hl (fun _ => rfl) hp h
  | _ => exact hp

/-- After a command that goes the same way, the limit is still the higher one. -/
theorem stackBound_of_perform? {o : Outcome η Answer} (ho : c.perform? m = some o) :
    stackBound o.machine.config.dialect.stackLimit ≤ stackBound l := by
  rw [config_of_perform? ho]
  exact hl

end HigherLimit

/-- The actions of a first command that comes to an end, and those of the commands after it. -/
theorem overflowFree_history_cons {o : Outcome η Answer} (ho : c.perform? m = some o) :
    Action.OverflowFree m (history m (c :: cs)) ↔
      Action.OverflowFree m (c.opening m) ∧
        Action.OverflowFree o.machine (history o.machine cs) := by
  rw [history_cons_of_some ho, Action.overflowFree_append_iff, overflowFree_actions_iff,
    ← (matches_of_perform? ho).1]

/-- A beginning of two lists one after the other ends in the first or goes on in the second. -/
theorem prefix_append_cases {xs ys zs : List (Action η)} (h : xs <+: ys ++ zs) :
    xs <+: ys ∨ ∃ ws, ws ≠ [] ∧ ws <+: zs ∧ xs = ys ++ ws := by
  rcases List.prefix_or_prefix_of_prefix h (List.prefix_append ys zs) with hxs | ⟨ws, rfl⟩
  · exact Or.inl hxs
  · cases ws with
    | nil => exact Or.inl (by rw [List.append_nil])
    | cons w ws => exact Or.inr ⟨w :: ws, by simp, (List.prefix_append_right_inj ys).1 h, rfl⟩

/-- Under a higher limit commands do what they do under the lower one, up to the first tick that is
refused there for want of room. -/
theorem prefix_history_withStackLimit
    (hl : stackBound m.config.dialect.stackLimit ≤ stackBound l) (hp : as <+: history m cs)
    (h : Action.OverflowFree m as.dropLast) : as <+: history (m.withStackLimit l) cs := by
  induction cs generalizing m as with
  | nil => exact hp
  | cons c cs ih =>
    cases ho : c.perform? m with
    | none =>
      rw [history_cons_of_none ho] at hp
      exact (prefix_opening_withStackLimit hl hp h).trans opening_prefix_history
    | some o =>
      rw [history_cons_of_some ho, actions_eq, List.append_assoc] at hp
      rcases prefix_append_cases hp with hopen | ⟨bs, hbs, hnext, rfl⟩
      · exact (prefix_opening_withStackLimit hl hopen h).trans opening_prefix_history
      · -- the first command is done with its ticks, so that it goes the same way
        rw [List.dropLast_append_of_ne_nil hbs, Action.overflowFree_append_iff] at h
        obtain ⟨hopening, hbeyond⟩ := h
        obtain ⟨hsame, hperform⟩ := perform?_withStackLimit hl hopening
        rw [ho, Option.map_some] at hperform
        rw [history_cons_of_some hperform, actions_eq, hsame, List.append_assoc,
          List.prefix_append_right_inj]
        rcases prefix_append_cases hnext with hend | ⟨ds, hds, hlater, rfl⟩
        · exact hend.trans (List.prefix_append _ _)
        · rw [List.dropLast_append_of_ne_nil hds, Action.overflowFree_append_iff] at hbeyond
          rw [List.prefix_append_right_inj]
          refine ih (stackBound_of_perform? hl ho) hlater ?_
          rw [(matches_of_perform? ho).1, actions_eq, Action.performAll_append]
          exact hbeyond.2

/-- Under a higher limit commands of which no tick is refused for want of room show the same and
lead to the same machine. -/
theorem observations_withStackLimit
    (hl : stackBound m.config.dialect.stackLimit ≤ stackBound l)
    (h : Action.OverflowFree m (history m cs)) :
    observations (m.withStackLimit l) cs = observations m cs ∧
      performAll? (m.withStackLimit l) cs =
        (performAll? m cs).map (Outcome.alter (Machine.withStackLimit l)) := by
  induction cs generalizing m with
  | nil => exact ⟨rfl, rfl⟩
  | cons c cs ih =>
    cases ho : c.perform? m with
    | none =>
      rw [history_cons_of_none ho] at h
      have hperform := (perform?_withStackLimit hl h).2
      rw [ho, Option.map_none] at hperform
      simp [observations, performAll?, ho, hperform]
    | some o =>
      obtain ⟨hfirst, hrest⟩ := (overflowFree_history_cons ho).1 h
      have hperform := (perform?_withStackLimit hl hfirst).2
      rw [ho, Option.map_some] at hperform
      obtain ⟨hobserve, hall⟩ := ih (stackBound_of_perform? hl ho) hrest
      constructor
      · simp only [observations, ho, hperform]
        exact congrArg (observe o :: ·) hobserve
      · simp only [performAll?, ho, hperform]
        show Option.map _ (performAll? (o.machine.withStackLimit l) cs) = _
        rw [hall, Option.map_map, Option.map_map]
        rfl

end Command

/-! ### Where a limit is reached -/

namespace Machine

variable {η : Type} {m : Machine η}

/-- There are no more pending calls than allowed, whatever is done to a machine. -/
theorem length_stack_performAll (limit : Option ℕ) (hlimit : m.config.dialect.stackLimit = limit)
    (h : (m.state.stack.length : ℕ∞) ≤ stackBound limit) (as : List (Action η)) :
    ((Action.performAll m as).machine.state.stack.length : ℕ∞) ≤ stackBound limit := by
  have hstable : Stable fun m : Machine η => m.config.dialect.stackLimit = limit ∧
      ∀ l, limit = some l → m.state.stack.length ≤ l := by
    refine stable_of_state (Q := fun s => ∀ l, limit = some l → s.stack.length ≤ l)
      (fun l _ => Nat.zero_le l) (fun c r s i _ hu hs => ?_) fun _ _ hs => hs
    obtain ⟨-, -, -, hr⟩ := State.upcoming_eq_ok_iff.1 hu
    show ∀ l, limit = some l → (i.after c r s).stack.length ≤ l
    rw [Instruction.stack_after]
    exact Instruction.length_nextStack_le hr hs
  exact coe_le_stackBound_iff.2 (hstable.performAll ⟨hlimit, coe_le_stackBound_iff.1 h⟩ as).2

/-- A tick is refused for want of room exactly at a call, when no more may be pending. -/
theorem Overflows.call (h : m.Overflows)
    (hstack : (m.state.stack.length : ℕ∞) ≤ stackBound m.config.dialect.stackLimit) :
    ∃ (l : ℕ) (op : UInt16), m.config.dialect.stackLimit = some l ∧
      m.tick.value = .error (.stackOverflow l) ∧ m.state.stack.length = l ∧
      m.state.fetch = .ok op ∧ (group op).val = 0x2 := by
  obtain ⟨hs, l, hv⟩ := h
  have hu : m.upcoming = .error (.stackOverflow l) := (value_tick_eq_error_iff hs).1 hv
  cases hf : m.state.fetch with
  | error e =>
    obtain ⟨-, rfl⟩ := State.fetch_eq_error_iff.1 hf
    cases (State.upcoming_of_fetch_error hf).symm.trans hu
  | ok op =>
    have hx : (execute m.surroundings m.random m.state op).value = .error (.stackOverflow l) := by
      rw [State.execute_of_upcoming_error (c := m.surroundings) hf hu]
    obtain ⟨hg, hl, hle⟩ := value_execute_eq_stackOverflow_iff.1 hx
    exact ⟨l, op, hl, hv, le_antisymm (coe_le_stackBound_iff.1 hstack l hl) hle, rfl, hg⟩

end Machine

/-- **The limit on pending calls is conservative.**  Let a machine have no more pending calls than
its limit allows, and let another one differ from it in a higher limit only.  As long as no tick of
the first is refused for want of room, whatever is done to it in the course of any commands is done
to the other as well, with the same events, and leaves the same machine but for the limit; and if
none is refused in all of the commands, both show the same.  If a tick is refused for want of room,
then the other machine makes that tick too, and just before it both are the same but for the limit:
there are as many pending calls as the limit allows, and the next word is a call.  If the other
limit is really higher, the other machine executes that call. -/
theorem stack_limit_conservative {η : Type} (m : Machine η) (l : Option ℕ)
    (hl : stackBound m.config.dialect.stackLimit ≤ stackBound l)
    (hstack : (m.state.stack.length : ℕ∞) ≤ stackBound m.config.dialect.stackLimit)
    (cs : List (Command η)) :
    let m' := m.withStackLimit l
    (∀ as, as <+: Command.history m cs → Action.OverflowFree m as →
        as <+: Command.history m' cs ∧
          Action.performAll m' as =
            (Action.performAll m as).alter (Machine.withStackLimit l)) ∧
      (Action.OverflowFree m (Command.history m cs) →
        Command.observations m' cs = Command.observations m cs ∧
          Command.performAll? m' cs =
            (Command.performAll? m cs).map (Outcome.alter (Machine.withStackLimit l))) ∧
      ∀ as, as ++ [.tick] <+: Command.history m cs → Action.OverflowFree m as →
        (Action.performAll m as).machine.Overflows →
        let n := (Action.performAll m as).machine
        let n' := (Action.performAll m' as).machine
        as ++ [.tick] <+: Command.history m' cs ∧ n' = n.withStackLimit l ∧
          ∃ (k : ℕ) (op : UInt16), m.config.dialect.stackLimit = some k ∧
            n.tick.value = .error (.stackOverflow k) ∧ n'.state = n.state ∧
            n.state.stack.length = k ∧ n.state.fetch = .ok op ∧ (group op).val = 0x2 ∧
            ((k : ℕ∞) < stackBound l →
              n'.tick.value = .ok .ready ∧
              n'.tick.machine.state.stack = (n.state.pc + 2) :: n.state.stack ∧
              n'.tick.machine.state.pc = (target op).toWord) := by
  intro m'
  refine ⟨fun as hp hfree => ⟨?_, Action.performAll_withStackLimit hl hfree⟩,
    Command.observations_withStackLimit hl, fun as hp hfree hover => ?_⟩
  · exact Command.prefix_history_withStackLimit hl hp (hfree.of_prefix (List.dropLast_prefix as))
  · intro n n'
    have hn' : n' = n.withStackLimit l :=
      congrArg Outcome.machine (Action.performAll_withStackLimit hl hfree)
    have hlimit : n.config.dialect.stackLimit = m.config.dialect.stackLimit := by
      rw [Action.config_performAll]
    have hlen : (n.state.stack.length : ℕ∞) ≤ stackBound n.config.dialect.stackLimit := by
      rw [hlimit]
      exact Machine.length_stack_performAll _ rfl hstack as
    obtain ⟨k, op, hk, hv, hfull, hf, hg⟩ := hover.call hlen
    refine ⟨?_, hn', k, op, hlimit ▸ hk, hv, by rw [hn']; rfl, hfull, hf, hg, fun hlt => ?_⟩
    · refine Command.prefix_history_withStackLimit hl hp ?_
      rw [List.dropLast_concat]
      exact hfree
    · have hroom : ∀ j, l = some j → n.state.stack.length < j := by
        rw [hfull]
        exact coe_lt_stackBound_iff.1 hlt
      rw [hn']
      exact Machine.tick_of_call (m := n.withStackLimit l) hover.1 hf hg hroom

/-- A machine with room for one pending call. -/
def oneCall : Machine Unit :=
  Machine.create { dialect := { stackLimit := some 1 } } ChaCha.zeroKey (fun _ _ => false) ()

/-- A subroutine that calls itself. -/
def endlessCall : List UInt8 := [0x22, 0x00]

/-- With room for one pending call the second call of a subroutine that calls itself is refused;
without a limit it is executed, and the first goes the same way. -/
theorem stack_limit_conservative_endless :
    let m' := oneCall.withStackLimit none
    Command.performAll? m' [.loadProgram endlessCall, .step 1] =
        (Command.performAll? oneCall [.loadProgram endlessCall, .step 1]).map
          (Outcome.alter (Machine.withStackLimit none)) ∧
      let n := (Action.performAll oneCall [.loadProgram endlessCall, .tick]).machine
      let n' := (Action.performAll m' [.loadProgram endlessCall, .tick]).machine
      n.tick.value = .error (.stackOverflow 1) ∧ n'.state = n.state ∧
        n.state.stack.length = 1 ∧ n'.tick.value = .ok .ready ∧
        n'.tick.machine.state.stack = [0x202, 0x202] := by
  have hl : stackBound oneCall.config.dialect.stackLimit ≤ stackBound none := le_top
  have hstack : (oneCall.state.stack.length : ℕ∞) ≤ stackBound oneCall.config.dialect.stackLimit :=
    coe_le_stackBound_iff.2 fun l _ => Nat.zero_le l
  obtain ⟨hone, hfive, hfirst, hstatus, hsecond, hpushed⟩ :
      (Progress.start (oneCall.loadProgram endlessCall).machine.idle).ticksUntil
        Progress.halted 1 = 1 ∧
      (Progress.start (oneCall.loadProgram endlessCall).machine.idle).ticksUntil
        Progress.halted 5 = 2 ∧
      (oneCall.loadProgram endlessCall).machine.tick.value = .ok .ready ∧
      (Action.performAll oneCall [.loadProgram endlessCall, .tick]).machine.status = .ready ∧
      (Action.performAll oneCall [.loadProgram endlessCall, .tick]).machine.tick.value =
        .error (.stackOverflow 1) ∧
      ((Action.performAll oneCall [.loadProgram endlessCall, .tick]).machine.state.pc + 2) ::
        (Action.performAll oneCall [.loadProgram endlessCall, .tick]).machine.state.stack =
          [0x202, 0x202] := by
    decide +kernel
  have hlimit : oneCall.config.dialect.stackLimit = some 1 := rfl
  have hhistory : ∀ k, Command.history oneCall [.loadProgram endlessCall, .step k] =
      .loadProgram endlessCall ::
        (List.replicate ((Progress.start (oneCall.loadProgram endlessCall).machine.idle).ticksUntil
          Progress.halted k) .tick ++ []) := fun _ => rfl
  have hfree : Action.OverflowFree oneCall [.loadProgram endlessCall, .tick] := by
    refine ⟨(fun h => nomatch h), fun _ => ?_, trivial⟩
    rintro ⟨-, l, hv⟩
    cases hfirst.symm.trans hv
  constructor
  · have hrest := (stack_limit_conservative oneCall none hl hstack
      [.loadProgram endlessCall, .step 1]).2.1
    rw [hhistory, hone] at hrest
    exact (hrest hfree).2
  · have hend := (stack_limit_conservative oneCall none hl hstack
      [.loadProgram endlessCall, .step 5]).2.2 [.loadProgram endlessCall, .tick]
      (by rw [hhistory, hfive]; exact List.prefix_rfl) hfree ⟨hstatus, 1, hsecond⟩
    obtain ⟨-, -, k, op, hk, -, hsame, hlen, -, -, hcall⟩ := hend
    obtain rfl : k = 1 := Option.some.inj (hk.symm.trans hlimit)
    obtain ⟨hready, hpush, -⟩ := hcall (ENat.natCast_lt_top 1)
    exact ⟨hsecond, hsame, hlen, hready, hpush.trans hpushed⟩

end ChipEight
