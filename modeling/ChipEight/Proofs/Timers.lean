import ChipEight.Proofs.Bounds
import ChipEight.Proofs.ExecutedWords

/-!
# Timers over a history

Both timers obey the same law, each with an instruction of its own that sets it.  A tick that
executes a word sets the timer or leaves it, and counts it down; nothing else but a reset touches
it.  So a timer is determined by the value that it was set to last and the number of words executed
since, the one that set it included.

* `Timer`, `State.timer`, `Opcode.sets`: the two timers and the words that set them;
* `Machine.timer_tick_of_executed`, `Action.timer_perform_of_no_execution`: one tick, and all that
  leaves the timers alone;
* `Action.timer_performAll_of_not_set`, `Action.timer_performAll_of_set`: histories in which a timer
  is not set, and in which it is;
* `timers_count_executions`: the main result.
-/

namespace ChipEight

open Opcode

/-- The two timers. -/
inductive Timer
  | delay
  | sound
  deriving DecidableEq, Repr

/-- The value of a timer. -/
def State.timer (s : State) : Timer → UInt8
  | .delay => s.delayTimer
  | .sound => s.soundTimer

namespace Timer

/-- The low byte of the words `FX15` and `FX18`, which set a timer. -/
def code : Timer → UInt8
  | delay => 0x15
  | sound => 0x18

/-- The instruction that sets a timer to the value of a register. -/
def setter : Timer → Register → Instruction
  | delay, v => .setDelay v
  | sound, v => .setSound v

end Timer

/-- Whether a word sets a timer. -/
def Opcode.sets (t : Timer) (op : UInt16) : Bool := (group op).val == 0xF && byte op == t.code

/-! ### One instruction -/

namespace Instruction

variable {t : Timer} {op : UInt16} {i : Instruction} {c : Surroundings} {r : RandomSource}
  {s : State}

theorem decode?_of_sets (h : sets t op = true) : decode? op = some (t.setter (x op)) := by
  obtain ⟨hg, hb⟩ : (group op).val = 0xF ∧ byte op = t.code := by simpa [sets, -val_group] using h
  rw [decode?_eq_some_iff]
  cases t with
  | delay => exact ⟨hg, hb, rfl⟩
  | sound => exact ⟨hg, hb, rfl⟩

theorem sets_of_decode? {v : Register} (h : decode? op = some (t.setter v)) : sets t op = true := by
  have he := decode?_eq_some_iff.1 h
  have hgb : (group op).val = 0xF ∧ byte op = t.code := by
    cases t with
    | delay => exact ⟨he.1, he.2.1⟩
    | sound => exact ⟨he.1, he.2.1⟩
  simp [sets, hgb.1, hgb.2, -val_group]

/-- Only its setter changes a timer. -/
theorem timer_after_of_ne (h : ∀ v, i ≠ t.setter v) : (i.after c r s).timer t = s.timer t := by
  cases i with
  | skip condition => rw [after_skip]; cases t <;> rfl
  | arithmetic operation v w => rw [after_arithmetic]; cases t <;> rfl
  | setDelay v =>
    cases t with
    | delay => exact absurd rfl (h v)
    | sound => rfl
  | setSound v =>
    cases t with
    | delay => rfl
    | sound => exact absurd rfl (h v)
  | _ => cases t <;> rfl

theorem timer_after (h : decode? op = some i) :
    (i.after c r s).timer t = if sets t op then s.register (x op) else s.timer t := by
  by_cases hs : sets t op = true
  · obtain rfl : i = t.setter (x op) := Option.some.inj (h.symm.trans (decode?_of_sets hs))
    rw [if_pos hs]
    cases t <;> rfl
  · rw [if_neg hs]
    refine timer_after_of_ne ?_
    rintro v rfl
    exact hs (sets_of_decode? h)

end Instruction

theorem State.timer_countDown (s : State) (t : Timer) :
    s.countDown.timer t = countDownTimer (s.timer t) := by
  cases t <;> rfl

/-- The timers are no part of the memory. -/
theorem State.timer_of_memory {s s' : State} (h : s' = { s with memory := s'.memory }) (t : Timer) :
    s'.timer t = s.timer t := by
  rw [h]
  cases t <;> rfl

@[simp] theorem State.timer_initial (t : Timer) : State.initial.timer t = 0 := by
  cases t <;> rfl

/-! ### One tick -/

namespace Machine

variable {η : Type} {m : Machine η} {op : UInt16}

/-- A tick that executes a word sets the timer or leaves it, and then counts it down. -/
theorem timer_tick_of_executed (h : m.executed? = some op) (t : Timer) :
    (m.tick.machine.state.timer t).toNat =
      (if sets t op then m.state.register (x op) else m.state.timer t).toNat - 1 := by
  obtain ⟨i, r, hd, hm⟩ := machine_tick_of_executed h
  have hstate :
      m.tick.machine.state = (i.after m.surroundings m.random m.state).countDown := by
    rw [hm]; rfl
  rw [hstate, State.timer_countDown, Instruction.timer_after hd, State.toNat_countDownTimer]

/-- A word `FX07` reads the delay timer as it was before it is counted down. -/
theorem register_tick_of_readDelay (h : m.executed? = some op) (hg : (group op).val = 0xF)
    (hb : byte op = 0x07) : m.tick.machine.state.register (x op) = m.state.delayTimer := by
  obtain ⟨i, r, hd, hm⟩ := machine_tick_of_executed h
  have hread : Instruction.decode? op = some (.readDelay (x op)) :=
    Instruction.decode?_eq_some_iff.2 ⟨hg, hb, rfl⟩
  obtain rfl : i = .readDelay (x op) := Option.some.inj (hd.symm.trans hread)
  rw [hm]
  exact State.register_setRegister_self _ _ _

end Machine

/-! ### Histories -/

namespace Action

variable {η : Type} {m : Machine η} {a : Action η} {as : List (Action η)} {t : Timer}

theorem timer_perform_of_no_execution (hr : a ≠ .reset) (h : a.execution? m = none) (t : Timer) :
    (a.perform m).machine.state.timer t = m.state.timer t :=
  State.timer_of_memory (state_perform_of_no_execution hr h) t

theorem timer_perform_reset (m : Machine η) (t : Timer) :
    (reset.perform m).machine.state.timer t = 0 := by
  show m.reset.machine.state.timer t = 0
  rw [m.state_reset, State.timer_initial]

theorem timer_after_execution {e : Execution η} (h : a.execution? m = some e) (t : Timer) :
    (e.after.state.timer t).toNat =
      (if sets t e.opcode then m.state.register (x e.opcode) else m.state.timer t).toNat - 1 := by
  obtain ⟨-, rfl, hx⟩ := execution?_eq_some_iff.1 h
  exact Machine.timer_tick_of_executed hx t

/-- A timer that is not set loses one for each word executed, until it is zero. -/
theorem timer_performAll_of_not_set (hr : .reset ∉ as)
    (h : ∀ e ∈ executions m as, sets t e.opcode = false) :
    ((performAll m as).machine.state.timer t).toNat =
      (m.state.timer t).toNat - (executions m as).length := by
  induction as generalizing m with
  | nil => rfl
  | cons a as ih =>
    obtain ⟨ha, has⟩ : a ≠ .reset ∧ .reset ∉ as := by simpa [eq_comm] using hr
    rw [performAll_cons, Outcome.machine_andThen]
    cases hx : a.execution? m with
    | none =>
      rw [executions_cons_of_none hx] at h ⊢
      rw [ih has h, timer_perform_of_no_execution ha hx]
    | some e =>
      rw [executions_cons_of_some hx] at h ⊢
      have htail : ((performAll e.after as).machine.state.timer t).toNat =
          (e.after.state.timer t).toNat - (executions e.after as).length :=
        ih has fun e' he' => h e' (List.mem_cons_of_mem e he')
      obtain ⟨rfl, rfl, -⟩ := execution?_eq_some_iff.1 hx
      have hfirst := timer_after_execution hx t
      rw [if_neg (by simp [h e List.mem_cons_self])] at hfirst
      rw [List.length_cons]
      show ((performAll e.after as).machine.state.timer t).toNat = _
      omega

/-- A timer that has been set loses one for the word that set it and for each executed since. -/
theorem timer_performAll_of_set {es fs : List (Execution η)} {e : Execution η} (hr : .reset ∉ as)
    (hes : executions m as = es ++ e :: fs) (hset : sets t e.opcode = true)
    (hfs : ∀ f ∈ fs, sets t f.opcode = false) :
    ((performAll m as).machine.state.timer t).toNat =
      (e.before.state.register (x e.opcode)).toNat - (fs.length + 1) := by
  have hmem : e ∈ executions m as := by simp [hes]
  have hx : e.before.executed? = some e.opcode := executed?_of_mem_executions hmem
  obtain ⟨before, after, rfl, -, hm, rfl⟩ := executions_split hes
  have hafter : .reset ∉ after := fun h => hr (by simp [h])
  have hend : (performAll m (before ++ .tick :: after)).machine =
      (performAll e.after after).machine := by
    rw [performAll_append, Outcome.machine_andThen, hm]
    rfl
  have hfirst := Machine.timer_tick_of_executed hx t
  rw [if_pos hset] at hfirst
  rw [hend, timer_performAll_of_not_set hafter hfs, Nat.sub_add_eq, Nat.sub_right_comm, ← hfirst]
  rfl

end Action

namespace Command

variable {η : Type} {m : Machine η} {cs : List (Command η)} {o : Outcome η Unit} {t : Timer}

theorem timer_of_performAll?_of_not_set (hr : .reset ∉ cs) (ho : performAll? m cs = some o)
    (h : ∀ e ∈ executions m cs, sets t e.opcode = false) :
    (o.machine.state.timer t).toNat = (m.state.timer t).toNat - (executions m cs).length := by
  rw [(matches_of_performAll? ho).1]
  exact Action.timer_performAll_of_not_set (fun hmem => hr (reset_mem_of_mem_allActions hmem)) h

/-- If the last word that sets a timer is the `j`-th of the executed ones, each from that one on has
counted it down. -/
theorem timer_of_performAll?_of_set {j : ℕ} {e : Execution η} (hr : .reset ∉ cs)
    (ho : performAll? m cs = some o) (hj : 1 ≤ j) (he : (executions m cs)[j - 1]? = some e)
    (hset : sets t e.opcode = true)
    (hlast : ∀ e' ∈ (executions m cs).drop j, sets t e'.opcode = false) :
    (o.machine.state.timer t).toNat =
      (e.before.state.register (x e.opcode)).toNat - ((executions m cs).length - j + 1) := by
  obtain ⟨hlt, hget⟩ := List.getElem?_eq_some_iff.1 he
  have hsplit : executions m cs =
      (executions m cs).take (j - 1) ++ e :: (executions m cs).drop j := by
    conv_lhs => rw [← List.take_append_drop (j - 1) (executions m cs),
      List.drop_eq_getElem_cons hlt, hget, Nat.sub_add_cancel hj]
  rw [(matches_of_performAll? ho).1,
    Action.timer_performAll_of_set (fun hmem => hr (reset_mem_of_mem_allActions hmem)) hsplit hset
      hlast, List.length_drop]

/-- A command that makes no tick and is no reset leaves the timers alone. -/
theorem timer_of_perform?_of_no_tick {c : Command η} {o : Outcome η Answer}
    (ho : c.perform? m = some o) (ht : .tick ∉ c.actions m) (hr : c ≠ .reset) (t : Timer) :
    o.machine.state.timer t = m.state.timer t := by
  rw [(matches_of_perform? ho).1]
  refine Action.performAll_preserves (P := fun n => n.state.timer t = m.state.timer t)
    (fun a ha n hn => ?_) rfl
  have hnone : a.execution? n = none :=
    Action.execution?_of_ne_tick (fun h => ht (h ▸ ha)) n
  have hne : a ≠ .reset := by
    rintro rfl
    exact hr (reset_mem_actions_iff.1 ha)
  exact (Action.timer_perform_of_no_execution hne hnone t).trans hn

end Command

/-- **A timer counts the words executed since it was set.**  Over any commands without a reset, a
timer that none of the words executed sets loses one for each of them, and stops at zero; if the
last of the `k` words that sets it is the `j`-th, it ends at the value that this word put into it
less `k - j + 1`.  This holds of either timer, whatever becomes of the other.  Ticks in a row that
each execute a word, the last of which may be an exit, are as many executions.  The word that reads
the delay timer finds it as it was before its tick counts it down.  A tick that faults or finds the
machine halted leaves both timers alone, and so does any other command without a tick, save a reset,
which makes them zero. -/
theorem timers_count_executions {η : Type} (m : Machine η) :
    (∀ (t : Timer) (cs : List (Command η)) (o : Outcome η Unit), .reset ∉ cs →
      Command.performAll? m cs = some o →
      let es := Command.executions m cs
      let k := es.length
      ((∀ e ∈ es, sets t e.opcode = false) →
        (o.machine.state.timer t).toNat = (m.state.timer t).toNat - k) ∧
      (∀ j e, 1 ≤ j → es[j - 1]? = some e → sets t e.opcode = true →
        (∀ e' ∈ es.drop j, sets t e'.opcode = false) →
        (o.machine.state.timer t).toNat =
          (e.before.state.register (x e.opcode)).toNat - (k - j + 1))) ∧
    (∀ k, (∀ i < k, (m.afterTicks i).executed? ≠ none) →
      ∃ o, Command.performAll? m (List.replicate k .tick) = some o ∧
        o.machine = m.afterTicks k ∧
        (Command.executions m (List.replicate k .tick)).map Execution.before =
          (List.range k).map m.afterTicks) ∧
    (∀ op, m.executed? = some op → (group op).val = 0xF → byte op = 0x07 →
      m.tick.machine.state.register (x op) = m.state.delayTimer) ∧
    (∀ t, m.status ≠ .ready ∨ (∃ e, m.tick.value = .error e) →
      m.tick.machine.state.timer t = m.state.timer t) ∧
    (∀ t (c : Command η) (o : Outcome η Command.Answer), c.perform? m = some o →
      .tick ∉ c.actions m → c ≠ .reset → o.machine.state.timer t = m.state.timer t) ∧
    ∀ t, m.reset.machine.state.timer t = 0 := by
  refine ⟨fun t cs o hr ho => ⟨Command.timer_of_performAll?_of_not_set hr ho,
      fun j e hj he hset hlast => Command.timer_of_performAll?_of_set hr ho hj he hset hlast⟩,
    fun k hk => ?_, fun op h hg hb => Machine.register_tick_of_readDelay h hg hb, fun t h => ?_,
    fun t c o ho ht hr => Command.timer_of_perform?_of_no_tick ho ht hr t,
    Action.timer_perform_reset m⟩
  · obtain ⟨o, ho⟩ := Command.exists_performAll?_ticks m k
    refine ⟨o, ho, ?_, Command.before_executions_ticks hk⟩
    rw [(Command.matches_of_performAll? ho).1, Command.allActions_ticks,
      Action.machine_performAll_ticks]
  · exact Action.timer_perform_of_no_execution (by simp) (Action.execution?_tick_of_fault h) t

/-- The program that sets the delay timer to five, reads it and exits. -/
def timerProgram : List (Command Unit) :=
  [.loadProgram [0x6A, 0x05, 0xFA, 0x15, 0xFB, 0x07, 0x00, 0x17], .step 9]

/-- The second of four words sets the delay timer to five, which leaves two at the end and stays so;
the sound timer is never set. -/
theorem timers_count_executions_exit :
    ∃ o, Command.performAll? poweredOn timerProgram = some o ∧
      (Command.executions poweredOn timerProgram).map Execution.opcode =
        [0x6A05, 0xFA15, 0xFB07, 0x0017] ∧
      o.machine.state.delayTimer.toNat = 5 - (4 - 2 + 1) ∧
      o.machine.state.soundTimer.toNat = 0 - 4 ∧
      o.machine.tick.machine.state.delayTimer = o.machine.state.delayTimer := by
  have hr : .reset ∉ timerProgram := by simp [timerProgram]
  have hend : (Command.performAll? poweredOn timerProgram).map (fun o => o.machine.status) =
      some (.exited 7) := by
    decide +kernel
  have hes : (Command.executions poweredOn timerProgram).map
      (fun e => (e.opcode, e.before.state.register (x e.opcode))) =
        [(0x6A05, 0), (0xFA15, 5), (0xFB07, 0), (0x0017, 0)] := by
    decide +kernel
  obtain ⟨o, ho, hstatus⟩ := Option.map_eq_some_iff.1 hend
  have hlen : (Command.executions poweredOn timerProgram).length = 4 := by
    simpa using congrArg List.length hes
  have hops : (Command.executions poweredOn timerProgram).map Execution.opcode =
      [0x6A05, 0xFA15, 0xFB07, 0x0017] := by
    have hfst := congrArg (List.map Prod.fst) hes
    rw [List.map_map] at hfst
    exact hfst
  have hsecond : ((Command.executions poweredOn timerProgram)[1]?).map
      (fun e => (e.opcode, e.before.state.register (x e.opcode))) = some (0xFA15, 5) := by
    rw [← List.getElem?_map, hes]
    rfl
  obtain ⟨e, he, hpair⟩ := Option.map_eq_some_iff.1 hsecond
  obtain ⟨hop, hv⟩ := Prod.mk.inj hpair
  have hlaw := fun t => (timers_count_executions poweredOn).1 t timerProgram o hr ho
  refine ⟨o, ho, hops, ?_, ?_, ?_⟩
  · have hdelay := (hlaw .delay).2 2 e (by decide) he (by rw [hop]; decide) fun e' he' => ?_
    · rw [hlen, hv] at hdelay
      exact hdelay
    · have hmem : e'.opcode ∈ ([0xFB07, 0x0017] : List UInt16) := by
        have := List.mem_map_of_mem (f := Execution.opcode) he'
        rwa [List.map_drop, hops] at this
      rcases List.mem_pair.1 hmem with h | h <;> rw [h] <;> decide
  · have hsound := (hlaw .sound).1 fun e' he' => ?_
    · rw [hlen] at hsound
      exact hsound
    · have hmem := List.mem_map_of_mem (f := Execution.opcode) he'
      rw [hops] at hmem
      simp only [List.mem_cons, List.not_mem_nil, or_false] at hmem
      rcases hmem with h | h | h | h <;> rw [h] <;> decide
  · exact (timers_count_executions o.machine).2.2.2.1 .delay (.inl (by simp [hstatus]))

end ChipEight
