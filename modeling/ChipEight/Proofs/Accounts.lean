import ChipEight.Proofs.RunReports

/-!
# The log accounts for every instruction and every fault

A history of commands is a history of actions, and each of them makes reports that depend on
nothing but the action and the machine before it.  A run adds one report at its beginning and,
unless a fault ended it, one at its end.

* `Moment`, `Moment.records`: an action with the machine before it, and its reports;
* `Moment.records_eq`, `Moment.filter_records`: these reports in order, and those of one kind;
* `Action.moments`, `Command.moments`: the moments of a history;
* `Command.ownRecords`, `Command.allRecords`: the reports of a command and of a list of commands;
* `Command.filter_allRecords`: but for those of runs, they are the reports of the moments;
* `log_accounts`: the main result.
-/

namespace ChipEight

open Opcode

/-! ### Kinds of records -/

namespace LogRecord

/-- Whether a record is one of the two that a run adds to those of its ticks. -/
def isRunReport : LogRecord → Bool
  | running _ => true
  | stopped _ => true
  | _ => false

/-- Whether a record says that a program has exited. -/
def isExit : LogRecord → Bool
  | exited _ => true
  | _ => false

theorem isRunReport_of_level_ne {r : LogRecord} (h : r.level ≠ .info) : r.isRunReport = false := by
  cases r with
  | running rate => exact absurd rfl h
  | stopped ticks => exact absurd rfl h
  | _ => rfl

/-- A record of some level that an action other than a run makes; `exit` tells whether it is the
report of an exit. -/
structure OfKind (l : Level) (exit : Bool) (r : LogRecord) : Prop where
  level : r.level = l
  isExit : r.isExit = exit
  isRunReport : r.isRunReport = false

end LogRecord

/-! ### Moments -/

/-- An action and the machine on which it is performed. -/
structure Moment (η : Type) where
  before : Machine η
  action : Action η

namespace Moment

variable {η : Type}

/-- The machine that the action leaves. -/
def after (t : Moment η) : Machine η := (t.action.perform t.before).machine

/-- What the machine reports in the course of the action. -/
def records (t : Moment η) : List LogRecord :=
  match t.action with
  | .tick => t.before.tickRecords
  | .reset => [.machineReset, .showing t.before.displays.length]
  | .loadProgram rom =>
      if Program.start + rom.length ≤ Memory.size then [.programLoaded rom.length] else []
  | _ => []

/-- The report of a word that a tick of a ready machine has fetched. -/
def fetched? (t : Moment η) : Option LogRecord :=
  match t.action, t.before.status, t.before.state.fetch with
  | .tick, .ready, .ok op =>
      some (.executing op t.before.state.registers t.before.state.index t.before.state.pc)
  | _, _, _ => none

/-- The report of a picture that is shown. -/
def redrawn? (t : Moment η) : Option LogRecord :=
  if t.action.redraws t.before then some (.showing t.before.displays.length) else none

/-- The report of a machine that has come to exit. -/
def exited? (t : Moment η) : Option LogRecord :=
  if t.before.status = t.after.status then none
  else match t.after.status with
    | .exited code => some (.exited code)
    | _ => none

/-- The report of a machine that was ready and has faulted. -/
def faulted? (t : Moment η) : Option LogRecord :=
  match t.before.status, t.after.status with
  | .ready, .faulted e => some (.halting t.before.state.pc e)
  | _, _ => none

/-- The report of a reset or of a program that has been loaded. -/
def announced (t : Moment η) : List LogRecord :=
  match t.action with
  | .reset => [.machineReset]
  | .loadProgram rom =>
      if Program.start + rom.length ≤ Memory.size then [.programLoaded rom.length] else []
  | _ => []

theorem exited?_of_status_eq {t : Moment η} (h : t.after.status = t.before.status) :
    t.exited? = none := if_pos h.symm

theorem faulted?_of_status_eq {t : Moment η} (h : t.after.status = t.before.status) :
    t.faulted? = none := by
  rw [faulted?, h]
  cases t.before.status <;> rfl

/-- Only ticks and resets change the status. -/
theorem status_after {t : Moment η} (ht : t.action ≠ .tick) (hr : t.action ≠ .reset) :
    t.after.status = t.before.status := by
  obtain ⟨m, a⟩ := t
  cases a with
  | tick => exact absurd rfl ht
  | reset => exact absurd rfl hr
  | loadProgram rom =>
    obtain ⟨mem, hm⟩ := m.exists_machine_loadProgram rom
    show (m.loadProgram rom).machine.status = _
    rw [hm]
  | _ => rfl

/-- A machine that becomes faulted keeps its state. -/
theorem state_of_faulted? {t : Moment η} (h : t.faulted? ≠ none) :
    t.after.state = t.before.state := by
  obtain ⟨m, a⟩ := t
  cases a with
  | tick =>
    rcases m.machine_tick_cases with ⟨-, hm⟩ | ⟨e, -, -, hm⟩ | ⟨i, r, -, -, hm⟩
    · exact congrArg Machine.state hm
    · exact (congrArg Machine.state hm).trans rfl
    · have hstatus : (⟨m, .tick⟩ : Moment η).after.status = i.effect.status :=
        congrArg Machine.status hm
      refine absurd ?_ h
      rw [faulted?, hstatus]
      cases i.effect <;> cases m.status <;> rfl
  | reset =>
    have hstatus : (⟨m, .reset⟩ : Moment η).after.status = .ready := m.status_reset
    refine absurd ?_ h
    rw [faulted?, hstatus]
    cases m.status <;> rfl
  | _ => exact absurd (faulted?_of_status_eq (status_after (by simp) (by simp))) h

/-- The reports of a tick, in order. -/
theorem tickRecords_eq (m : Machine η) :
    m.tickRecords =
      let t : Moment η := ⟨m, .tick⟩
      t.fetched?.toList ++ t.redrawn?.toList ++ t.exited?.toList ++ t.faulted?.toList := by
  have hafter : (⟨m, .tick⟩ : Moment η).after = m.tick.machine := rfl
  by_cases hs : m.status = .ready
  · cases hu : m.upcoming with
    | error e =>
      have hstatus : m.tick.machine.status = .faulted e := by
        rw [(Machine.tick_of_upcoming_error hs hu).1]
      rw [Machine.tickRecords_of_upcoming_error hs hu]
      simp only [fetched?, redrawn?, exited?, faulted?, Action.redraws, hafter, hs, hstatus,
        Machine.executed?_of_upcoming_error hu]
      cases m.state.fetch <;> simp
    | ok i =>
      obtain ⟨op, hf, hd, -⟩ := State.upcoming_eq_ok_iff.1 hu
      obtain ⟨⟨r, hm⟩, -⟩ := Machine.tick_of_upcoming_ok hs hu
      have hstatus : m.tick.machine.status = i.effect.status := by rw [hm]; rfl
      have hdraws := Instruction.effect_eq_redraw_iff hd
      rw [Machine.tickRecords_of_upcoming_ok hs hu hf]
      simp only [fetched?, redrawn?, exited?, faulted?, Action.redraws, hafter, hs, hstatus, hf,
        Machine.executed?_of_upcoming_ok hs hf hu, Option.any_some, ← hdraws]
      cases i.effect <;> simp [Effect.records, Effect.status]
  · have hstatus : (⟨m, .tick⟩ : Moment η).after.status = m.status := by
      rw [hafter, Machine.tick_of_not_ready hs]
    rw [Machine.tickRecords_of_not_ready hs]
    simp only [exited?_of_status_eq hstatus, faulted?_of_status_eq hstatus, redrawn?,
      Action.redraws, Machine.executed?_of_not_ready hs]
    cases hst : m.status with
    | ready => exact absurd hst hs
    | _ => simp [fetched?, hst]

/-- The reports of any action, in order. -/
theorem records_eq (t : Moment η) :
    t.records = t.announced ++
      (t.fetched?.toList ++ t.redrawn?.toList ++ t.exited?.toList ++ t.faulted?.toList) := by
  obtain ⟨m, a⟩ := t
  cases a with
  | tick => exact tickRecords_eq m
  | reset =>
    have hstatus : (⟨m, .reset⟩ : Moment η).after.status = .ready := m.status_reset
    simp only [records, announced, fetched?, redrawn?, exited?, faulted?, Action.redraws, hstatus]
    simp
  | _ =>
    rw [exited?_of_status_eq (status_after (by simp) (by simp)),
      faulted?_of_status_eq (status_after (by simp) (by simp))]
    simp [records, announced, fetched?, redrawn?, Action.redraws]

/-! ### Reports of one kind -/

variable {t : Moment η} {r : LogRecord}

theorem kind_fetched (h : r ∈ t.fetched?) : r.OfKind .trace false := by
  unfold fetched? at h
  split at h
  · cases h; exact ⟨rfl, rfl, rfl⟩
  · cases h

theorem kind_redrawn (h : r ∈ t.redrawn?) : r.OfKind .debug false := by
  unfold redrawn? at h
  split at h
  · cases h; exact ⟨rfl, rfl, rfl⟩
  · cases h

theorem kind_exited (h : r ∈ t.exited?) : r.OfKind .info true := by
  unfold exited? at h
  split at h
  · cases h
  · split at h
    · cases h; exact ⟨rfl, rfl, rfl⟩
    · cases h

theorem kind_faulted (h : r ∈ t.faulted?) : r.OfKind .error false := by
  unfold faulted? at h
  split at h
  · cases h; exact ⟨rfl, rfl, rfl⟩
  · cases h

theorem kind_announced (h : r ∈ t.announced) : r.OfKind .info false := by
  unfold announced at h
  split at h
  · rw [List.mem_singleton.1 h]; exact ⟨rfl, rfl, rfl⟩
  · split at h
    · rw [List.mem_singleton.1 h]; exact ⟨rfl, rfl, rfl⟩
    · cases h
  · cases h

theorem isRunReport_of_mem_records (h : r ∈ t.records) : r.isRunReport = false := by
  simp only [records_eq, List.mem_append, Option.mem_toList] at h
  rcases h with h | ((h | h) | h) | h
  · exact (kind_announced h).isRunReport
  · exact (kind_fetched h).isRunReport
  · exact (kind_redrawn h).isRunReport
  · exact (kind_exited h).isRunReport
  · exact (kind_faulted h).isRunReport

/-- Those reports of an action that satisfy a condition on their kind. -/
theorem filter_records {q : LogRecord → Bool} (f : Level → Bool → Bool)
    (hq : ∀ r, q r = f r.level r.isExit) (t : Moment η) :
    t.records.filter q =
      (if f .info false then t.announced else []) ++
        ((if f .trace false then t.fetched?.toList else []) ++
          (if f .debug false then t.redrawn?.toList else []) ++
          (if f .info true then t.exited?.toList else []) ++
          if f .error false then t.faulted?.toList else []) := by
  have hpart : ∀ {rs : List LogRecord} {l : Level} {b : Bool},
      (∀ r ∈ rs, r.OfKind l b) → rs.filter q = if f l b then rs else [] := by
    intro rs l b h
    have hconst : ∀ r ∈ rs, q r = f l b := fun r hr => by rw [hq, (h r hr).level, (h r hr).isExit]
    split
    · next hf => exact List.filter_eq_self.2 fun r hr => (hconst r hr).trans hf
    · next hf => exact List.filter_eq_nil_iff.2 fun r hr => by rw [hconst r hr]; exact hf
  simp only [records_eq, List.filter_append]
  rw [hpart fun r => kind_announced, hpart fun r hr => kind_fetched (Option.mem_toList.1 hr),
    hpart fun r hr => kind_redrawn (Option.mem_toList.1 hr),
    hpart fun r hr => kind_exited (Option.mem_toList.1 hr),
    hpart fun r hr => kind_faulted (Option.mem_toList.1 hr)]

theorem filter_trace (t : Moment η) :
    t.records.filter (·.level = .trace) = t.fetched?.toList := by
  rw [filter_records (fun l _ => l = .trace) fun _ => rfl]
  simp

theorem filter_debug (t : Moment η) :
    t.records.filter (·.level = .debug) = t.redrawn?.toList := by
  rw [filter_records (fun l _ => l = .debug) fun _ => rfl]
  simp

theorem filter_error (t : Moment η) :
    t.records.filter (·.level = .error) = t.faulted?.toList := by
  rw [filter_records (fun l _ => l = .error) fun _ => rfl]
  simp

theorem filter_exit (t : Moment η) : t.records.filter LogRecord.isExit = t.exited?.toList := by
  rw [filter_records (fun _ b => b) fun _ => rfl]
  simp

end Moment

namespace Action

variable {η : Type}

/-- Actions with the machines on which they are performed. -/
def moments (m : Machine η) : List (Action η) → List (Moment η)
  | [] => []
  | a :: as => ⟨m, a⟩ :: moments (a.perform m).machine as

theorem moments_append (m : Machine η) (as bs : List (Action η)) :
    moments m (as ++ bs) = moments m as ++ moments (performAll m as).machine bs := by
  induction as generalizing m with
  | nil => rfl
  | cons a as ih => exact congrArg (_ :: ·) (ih (a.perform m).machine)

theorem flatMap_records_ticks (m : Machine η) (k : ℕ) :
    (moments m (List.replicate k .tick)).flatMap Moment.records = m.ticksRecords k := by
  induction k generalizing m with
  | zero => rfl
  | succ k ih =>
    rw [Machine.ticksRecords, List.range_succ_eq_map, List.flatMap_cons, List.flatMap_map]
    exact congrArg (_ ++ ·) (ih m.tick.machine)

end Action

/-! ### Commands -/

namespace Command

variable {η : Type} {m : Machine η} {c : Command η} {o : Outcome η Answer}

/-- The machine's own records in the course of a command.  What the host reports as it changes is
not among them. -/
def ownRecords (m : Machine η) : Command η → List LogRecord
  | updateHost _ => []
  | c =>
      match c.perform? m with
      | none => []
      | some o => o.ownRecords m

/-- The machine's own records in the course of commands, one after another. -/
def allRecords (m : Machine η) : List (Command η) → List LogRecord
  | [] => []
  | c :: cs =>
      match c.perform? m with
      | none => []
      | some o => c.ownRecords m ++ allRecords o.machine cs

/-- The actions of commands, with the machines on which they are performed. -/
def moments (m : Machine η) (cs : List (Command η)) : List (Moment η) :=
  Action.moments m (allActions m cs)

theorem reports_step (m : Machine η) (n : ℕ) :
    (m.step n).Reports m
      ((Action.moments m ((step n).actions m)).flatMap Moment.records) := by
  have hforget : (m.step n).forget.Reports m ([] ++ m.ticksRecords
      ((Progress.start m.idle).ticksUntil Progress.halted n)) := by
    rw [Machine.step, Progress.stepFor_eq_advanceBy, Progress.forget_outcome_advanceBy]
    exact (m.heard_askStatus.reports rfl).andThen (m.reports_ticks _)
  rw [List.nil_append, ← Action.flatMap_records_ticks] at hforget
  exact hforget.congr rfl rfl

/-- A command other than a run reports what its actions report, and there are no other records but
those of answers. -/
theorem accounts_of_perform? (hc : c.isRun = false) (hu : ∀ f, c ≠ updateHost f)
    (h : c.perform? m = some o) :
    o.ownRecords m = (Action.moments m (c.actions m)).flatMap Moment.records ∧ o.Accounted m := by
  have hreports : ∀ {rs}, o.Reports m rs → o.ownRecords m = rs ++ [] ∧ o.Accounted m := by
    intro rs ho
    exact ⟨(List.append_nil rs).symm ▸ ho.ownRecords_eq, ho.accounted⟩
  cases c with
  | runFor n => cases hc
  | start fuel => cases hc
  | updateHost f => exact absurd rfl (hu f)
  | step n =>
    cases h
    have ho := (reports_step m n).congr (p := withStatus (m.step n)) rfl rfl
    exact ⟨ho.ownRecords_eq, ho.accounted⟩
  | tick => cases h; exact hreports (m.reports_tick.congr rfl rfl)
  | reset => cases h; exact hreports (m.reports_reset.congr rfl rfl)
  | loadProgram rom => cases h; exact hreports ((m.reports_loadProgram rom).congr rfl rfl)
  | _ => cases h; exact ⟨rfl, .rfl⟩

theorem accounts_withStatus_runFor (m : Machine η) (n : ℕ) :
    let k := m.beginRun.ticksUntil Progress.isOver n
    let o := withStatus (m.runFor n)
    o.ownRecords m =
        .running m.config.tickRate :: m.ticksRecords k ++ LogRecord.closing k o.value ∧
      o.Accounted m := by
  obtain ⟨hown, hall⟩ := m.ownRecords_runFor n
  refine ⟨?_, hall⟩
  have hclosing : ∀ k, LogRecord.closing k ((m.runFor n).value.map some) =
      LogRecord.closing k (m.runFor n).value := fun k => by
    cases (m.runFor n).value <;> rfl
  simp only [withStatus, hclosing]
  exact hown

/-- A run reports its beginning, what its ticks report and, unless it ends with a fault, the number
of its ticks. -/
theorem accounts_of_run (hc : c.isRun = true) (h : c.perform? m = some o) :
    ∃ k, m.RunsFor c.ticks? k ∧ c.actions m = List.replicate k .tick ++ [.setStop false] ∧
      o.ownRecords m =
        .running m.config.tickRate :: m.ticksRecords k ++ LogRecord.closing k o.value ∧
      o.Accounted m := by
  cases c with
  | runFor n =>
    cases h
    exact ⟨_, Machine.runsFor_ticksUntil (fun b hb => (Option.some.inj hb).symm) (by rintro ⟨⟩),
      rfl, accounts_withStatus_runFor m n⟩
  | start fuel =>
    obtain ⟨q, hq, rfl⟩ := Option.map_eq_some_iff.1 h
    have hover : (m.beginRun.runFor fuel).isOver = true := by
      simp only [Machine.runWithin?] at hq
      split at hq
      · assumption
      · cases hq
    rw [← Machine.runFor_of_runWithin? hq le_rfl]
    exact ⟨_, Machine.runsFor_ticksUntil (by rintro b ⟨⟩) (fun _ => hover), rfl,
      accounts_withStatus_runFor m fuel⟩
  | _ => cases hc

theorem ownRecords_eq (hu : ∀ f, c ≠ updateHost f) (h : c.perform? m = some o) :
    c.ownRecords m = o.ownRecords m := by
  cases c with
  | updateHost f => exact absurd rfl (hu f)
  | _ => simp only [ownRecords, h]

/-- The reports that a run adds aside, a command reports what its actions report. -/
theorem filter_ownRecords (h : c.perform? m = some o) :
    (c.ownRecords m).filter (fun r => !r.isRunReport) =
      (Action.moments m (c.actions m)).flatMap Moment.records := by
  have hkeep : ∀ ts : List (Moment η), (ts.flatMap Moment.records).filter (!·.isRunReport) =
      ts.flatMap Moment.records := by
    intro ts
    refine List.filter_eq_self.2 fun r hr => ?_
    obtain ⟨t, -, hr⟩ := List.mem_flatMap.1 hr
    rw [Moment.isRunReport_of_mem_records hr]
    rfl
  by_cases hu : ∃ f, c = updateHost f
  · obtain ⟨f, rfl⟩ := hu
    rfl
  · rw [not_exists] at hu
    rw [ownRecords_eq hu h]
    cases hc : c.isRun with
    | false => rw [(accounts_of_perform? hc hu h).1, hkeep]
    | true =>
      obtain ⟨k, -, hactions, hown, -⟩ := accounts_of_run hc h
      have hclosing : (LogRecord.closing k o.value).filter (!·.isRunReport) = [] := by
        cases o.value <;> rfl
      rw [hown, hactions, Action.moments_append, List.flatMap_append,
        Action.flatMap_records_ticks, List.filter_append, hclosing, ← Action.flatMap_records_ticks,
        List.filter_cons_of_neg (by simp [LogRecord.isRunReport]), hkeep]
      rfl

variable {cs : List (Command η)} {p : Outcome η Unit}

theorem filter_allRecords (h : performAll? m cs = some p) :
    (allRecords m cs).filter (fun r => !r.isRunReport) = (moments m cs).flatMap Moment.records := by
  induction cs generalizing m p with
  | nil => rfl
  | cons c cs ih =>
    obtain ⟨o₁, o₂, hc, hcs, rfl⟩ := performAll?_cons_eq_some_iff.1 h
    have hmachine := (matches_of_perform? hc).1
    rw [moments, allActions_cons hc, Action.moments_append, List.flatMap_append,
      ← filter_ownRecords hc, ← hmachine]
    simp only [allRecords, hc, List.filter_append]
    exact congrArg _ (ih hcs)

/-- Records of one kind come from the moments that give one. -/
theorem filter_allRecords_eq_filterMap {q : LogRecord → Bool} {f : Moment η → Option LogRecord}
    (hq : ∀ r, q r = true → r.isRunReport = false) (hf : ∀ t, t.records.filter q = (f t).toList)
    (h : performAll? m cs = some p) :
    (allRecords m cs).filter q = (moments m cs).filterMap f := by
  have hsame : (allRecords m cs).filter q =
      ((allRecords m cs).filter (!·.isRunReport)).filter q := by
    rw [List.filter_filter]
    refine List.filter_congr fun r _ => ?_
    cases hr : q r with
    | false => rfl
    | true => rw [hq r hr]; rfl
  rw [hsame, filter_allRecords h, List.filter_flatMap, List.filterMap_eq_flatMap_toList]
  simp only [hf]

/-- Ticks of a halted machine report nothing, so a run of it reports its beginning and its end. -/
theorem isRunReport_of_not_ready (hs : m.status ≠ .ready) (hc : c.ticks?.isSome ∨ c.isRun)
    (h : c.perform? m = some o) {r : LogRecord} (hr : r ∈ c.ownRecords m) :
    r.isRunReport = true := by
  have hnone : ∀ k, m.ticksRecords k = [] := by
    intro k
    refine List.flatMap_eq_nil_iff.2 fun j _ => ?_
    rw [Machine.afterTicks_of_not_ready hs, Machine.tickRecords_of_not_ready hs]
  have hticks : ∀ k, (Action.moments m (List.replicate k .tick)).flatMap Moment.records = [] :=
    fun k => (Action.flatMap_records_ticks m k).trans (hnone k)
  by_contra hne
  have hmem : r ∈ (c.ownRecords m).filter (!·.isRunReport) :=
    List.mem_filter.2 ⟨hr, by simpa using hne⟩
  rw [filter_ownRecords h] at hmem
  cases c with
  | tick => exact List.not_mem_nil (hticks 1 ▸ hmem)
  | step n => exact List.not_mem_nil (hticks _ ▸ hmem)
  | runFor n | start n =>
    rw [actions, Action.moments_append, List.flatMap_append, hticks] at hmem
    cases hmem
  | _ => simp [ticks?, isRun] at hc

end Command

/-- **The log accounts for every instruction and every fault.**  What the machine itself reports in
the course of any commands, displays and buzzer aside, is this.  There is one trace for each tick of
a ready machine that has fetched a word, whether or not it then faults, with the registers from
before; one error for each transition from ready to faulted, with the fault and the program counter,
which the fault leaves as it is; one debug record for each reset and each tick that executes a word
that clears the picture or draws on it; and one report of an exit for each transition to exited.
Within a tick the word comes first, and then the picture, the exit or the fault.  Ticks, steps and
runs of a halted machine report nothing but the beginning and the end of the run.  A run reports its
beginning, what its ticks report and, if and only if it does not answer with a fault, how many ticks
its loop has made; that is one for a machine that has halted before, unless a stop is pending or the
budget is zero.  While it goes on it has reported its beginning and what its ticks report.  There
are no other records than these and those with which displays and buzzer answer. -/
theorem log_accounts {η : Type} (m : Machine η) (cs : List (Command η)) (o : Outcome η Unit)
    (h : Command.performAll? m cs = some o) :
    let rs := Command.allRecords m cs
    let ts := Command.moments m cs
    rs.filter (·.level = .trace) = ts.filterMap Moment.fetched? ∧
      rs.filter (·.level = .error) = ts.filterMap Moment.faulted? ∧
      (∀ t : Moment η, t.faulted? ≠ none → t.after.state = t.before.state) ∧
      rs.filter (·.level = .debug) = ts.filterMap Moment.redrawn? ∧
      rs.filter LogRecord.isExit = ts.filterMap Moment.exited? ∧
      (∀ n : Machine η, n.tick.ownRecords n = n.tickRecords) ∧
      (∀ (n : Machine η) (c : Command η) (p : Outcome η Command.Answer),
        c.perform? n = some p → n.status ≠ .ready → c.ticks?.isSome ∨ c.isRun →
        ∀ r ∈ c.ownRecords n, r.isRunReport = true) ∧
      (∀ (n : Machine η) (c : Command η) (p : Outcome η Command.Answer),
        c.perform? n = some p → c.isRun = true →
        ∃ k, n.RunsFor c.ticks? k ∧
          c.ownRecords n =
            .running n.config.tickRate :: n.ticksRecords k ++ LogRecord.closing k p.value ∧
          (n.status ≠ .ready →
            k = if n.stopRequested = true ∨ c.ticks? = some 0 then 0 else 1)) ∧
      (∀ (n : Machine η) (fuel : ℕ), n.runWithin? fuel = none →
        (n.beginRun.runFor fuel).outcome.ownRecords n =
          .running n.config.tickRate :: n.ticksRecords fuel) ∧
      ∀ (n : Machine η) (c : Command η) (p : Outcome η Command.Answer),
        c.perform? n = some p → (∀ f, c ≠ .updateHost f) →
        p.records.Perm (c.ownRecords n ++ p.hostRecords n) := by
  have hkind : ∀ {q : LogRecord → Bool} {f : Moment η → Option LogRecord},
      (∀ r, q r = true → r.isRunReport = false) → (∀ t, t.records.filter q = (f t).toList) →
      (Command.allRecords m cs).filter q = (Command.moments m cs).filterMap f :=
    fun hq hf => Command.filter_allRecords_eq_filterMap hq hf h
  have hlevel : ∀ l, l ≠ .info → ∀ r : LogRecord, decide (r.level = l) = true →
      r.isRunReport = false := fun l hl r hr =>
    LogRecord.isRunReport_of_level_ne fun hinfo => hl ((of_decide_eq_true hr).symm.trans hinfo)
  refine ⟨hkind (hlevel _ (by decide)) Moment.filter_trace,
    hkind (hlevel _ (by decide)) Moment.filter_error, fun t => Moment.state_of_faulted?,
    hkind (hlevel _ (by decide)) Moment.filter_debug, hkind (fun r hr => ?_) Moment.filter_exit,
    fun n => n.reports_tick.ownRecords_eq,
    fun n c p hp hs hc r hr => Command.isRunReport_of_not_ready hs hc hp hr,
    fun n c p hp hc => ?_, fun n fuel => Machine.ownRecords_of_runWithin?_eq_none,
    fun n c p hp hu => ?_⟩
  · cases r with
    | exited code => rfl
    | _ => cases hr
  · have hu : ∀ f, c ≠ .updateHost f := by
      rintro f rfl
      cases hc
    obtain ⟨k, hk, -, hown, -⟩ := Command.accounts_of_run hc hp
    exact ⟨k, hk, (Command.ownRecords_eq hu hp).trans hown, hk.eq_of_not_ready⟩
  · rw [Command.ownRecords_eq hu hp]
    cases hc : c.isRun with
    | false => exact (Command.accounts_of_perform? hc hu hp).2
    | true =>
      obtain ⟨k, -, -, -, hall⟩ := Command.accounts_of_run hc hp
      exact hall

/-- A display with a report of its own. -/
def chattyDisplay : Display Unit := fun _ h => { host := h, log := [.rendering] }

/-- A program that clears the picture and exits is run, and run again; after a reset there is no
program any more, and a step faults, after which a tick and a run are tried. -/
def loggedHistory : List (Command Unit) :=
  [.addDisplay chattyDisplay, .loadProgram [0x00, 0xE0, 0x00, 0x17], .runFor 5, .runFor 5, .reset,
    .step 2, .tick, .runFor 2]

/-- Three words are fetched, the last of which is no instruction.  The picture is shown twice, and
what the display reports of it is not among the traces.  There is one exit and one fault, however
often the machine is run again, and a run of a machine that has exited makes one tick. -/
theorem log_accounts_rerun :
    ∃ o, Command.performAll? poweredOn loggedHistory = some o ∧
      ((Command.allRecords poweredOn loggedHistory).filter (·.level = .trace)).length = 3 ∧
      (Command.allRecords poweredOn loggedHistory).filter (·.level = .debug) =
        [.showing 1, .showing 1] ∧
      (Command.allRecords poweredOn loggedHistory).filter LogRecord.isExit = [.exited 7] ∧
      (Command.allRecords poweredOn loggedHistory).filter (·.level = .error) =
        [.halting 0x200 (.unrecognizedOpcode 0)] ∧
      ∃ n : Machine Unit, n.status = .exited 7 ∧
        Command.ownRecords n (.runFor 5) = [.running n.config.tickRate, .stopped 1] := by
  have hsome : (Command.performAll? poweredOn loggedHistory).isSome = true := by decide +kernel
  obtain ⟨o, ho⟩ := Option.isSome_iff_exists.1 hsome
  obtain ⟨htrace, herror, -, hdebug, hexit, -, -, hrun, -⟩ :=
    log_accounts poweredOn loggedHistory o ho
  refine ⟨o, ho, ?_, ?_, ?_, ?_, ?_⟩
  · rw [htrace]
    decide +kernel
  · rw [hdebug]
    decide +kernel
  · rw [hexit]
    decide +kernel
  · rw [herror]
    decide +kernel
  · let n : Machine Unit := { poweredOn with status := .exited 7 }
    obtain ⟨k, -, hown, hone⟩ := hrun n (.runFor 5) _ rfl rfl
    obtain rfl : k = 1 := hone (by decide)
    refine ⟨n, rfl, hown.trans ?_⟩
    decide +kernel

/-- A program exits, and a stop is requested before it is run again. -/
def stoppedHistory : List (Command Unit) := [.loadProgram [0x00, 0x17], .runFor 5, .requestStop]

/-- A run that finds a machine exited does not always count one tick: if a stop is pending, it makes
none and reports that there have been none. -/
theorem rerun_with_stop_pending_counts_none :
    ∃ o p, Command.performAll? poweredOn stoppedHistory = some o ∧ o.machine.status = .exited 7 ∧
      (Command.runFor 5).perform? o.machine = some p ∧ p.value = .ok (some (.exited 7)) ∧
      Command.ownRecords o.machine (.runFor 5) = [.running o.machine.config.tickRate, .stopped 0] ∧
      .stopped 1 ∉ Command.ownRecords o.machine (.runFor 5) := by
  have hrerun : (Command.performAll? poweredOn stoppedHistory).map (fun o =>
      (o.machine.status, (o.machine.runFor 5).value,
        decide (Command.ownRecords o.machine (.runFor 5) =
          [.running o.machine.config.tickRate, .stopped 0]))) =
      some (.exited 7, .ok (.exited 7), true) := by decide +kernel
  obtain ⟨o, ho, hsame⟩ := Option.map_eq_some_iff.1 hrerun
  simp only [Prod.mk.injEq, decide_eq_true_iff] at hsame
  obtain ⟨hstatus, hvalue, hown⟩ := hsame
  refine ⟨o, _, ho, hstatus, rfl, congrArg (Except.map some) hvalue, hown, ?_⟩
  rw [hown]
  simp

end ChipEight
