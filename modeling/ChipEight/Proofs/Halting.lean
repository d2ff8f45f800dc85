import ChipEight.Proofs.Callbacks
import ChipEight.Proofs.Faults

/-!
# Halted machines

A machine that has exited or faulted stands still until it is reset: nothing but the loading of a
program changes its state, and every tick gets the same answer.  As long as no program is loaded
either, the reason why it halted can be read off its state again.

* `Machine.StandsStill`, `Action.standsStill_perform`: what no action but a reset changes;
* `Machine.value_step_of_not_ready`, `Machine.value_runFor_of_not_ready`,
  `Machine.exists_runWithin?_of_not_ready`: what a halted machine answers;
* `inert_of_halted`: the first main result;
* `Machine.Explained`, `Command.loadedSinceHalt`: a status that the state explains, and whether a
  program has been loaded since the machine halted;
* `explained_of_performAll?`: the second main result.
-/

namespace ChipEight

open Opcode

/-! ### What does not change -/

namespace Machine

variable {η : Type} {l m n : Machine η}

/-- A machine later on that differs in its memory and its surroundings at most. -/
structure StandsStill (m n : Machine η) : Prop where
  status : n.status = m.status
  random : n.random = m.random
  state : n.state = { m.state with memory := n.state.memory }

theorem StandsStill.refl (m : Machine η) : m.StandsStill m := ⟨rfl, rfl, rfl⟩

theorem StandsStill.trans (h : l.StandsStill m) (h' : m.StandsStill n) : l.StandsStill n where
  status := h'.status.trans h.status
  random := h'.random.trans h.random
  state := by rw [h'.state, h.state]

end Machine

namespace Action

variable {η : Type} {m : Machine η} {a : Action η} {as : List (Action η)}

/-- A halted machine stands still, whatever is done to it short of a reset. -/
theorem standsStill_perform (h : m.status ≠ .ready) (hr : a ≠ .reset) :
    m.StandsStill (a.perform m).machine := by
  cases a with
  | tick =>
    show m.StandsStill m.tick.machine
    rw [Machine.tick_of_not_ready h]
    exact .refl m
  | reset => exact absurd rfl hr
  | loadProgram rom =>
    obtain ⟨mem, hm⟩ := m.exists_machine_loadProgram rom
    show m.StandsStill (m.loadProgram rom).machine
    rw [hm]
    exact ⟨rfl, rfl, rfl⟩
  | _ => exact ⟨rfl, rfl, rfl⟩

/-- No callback is made on a halted machine short of a reset. -/
theorem calls_perform_of_not_ready (h : m.status ≠ .ready) (hr : a ≠ .reset) :
    (a.perform m).calls = [] := by
  cases a with
  | tick => exact Machine.calls_tick_of_not_executed (Machine.executed?_of_not_ready h)
  | reset => exact absurd rfl hr
  | loadProgram rom => exact m.calls_loadProgram rom
  | updateHost change => exact m.calls_accept _
  | _ => rfl

/-- Whether one of the actions puts a program into memory that covers address `k`. -/
def Covers (as : List (Action η)) (k : ℕ) : Prop :=
  ∃ rom, .loadProgram rom ∈ as ∧ Program.start + rom.length ≤ Memory.size ∧
    Program.start ≤ k ∧ k < Program.start + rom.length

/-- On a halted machine only a program that fits changes memory, and only where it is put. -/
theorem byte_perform_of_not_ready (h : m.status ≠ .ready) (hr : a ≠ .reset) {k : ℕ}
    (hk : ¬ Covers [a] k) :
    (a.perform m).machine.state.memory.byte k = m.state.memory.byte k := by
  cases a with
  | tick =>
    show m.tick.machine.state.memory.byte k = _
    rw [Machine.tick_of_not_ready h]
  | reset => exact absurd rfl hr
  | loadProgram rom =>
    show (m.loadProgram rom).machine.state.memory.byte k = _
    by_cases hle : Program.start + rom.length ≤ Memory.size
    · have hout : ¬ (Program.start ≤ k ∧ k < Program.start + rom.length) :=
        fun hin => hk ⟨rom, List.mem_singleton_self _, hle, hin⟩
      rw [m.machine_loadProgram_of_le hle]
      exact Memory.byte_store_of_outside _ (by omega)
    · rw [m.machine_loadProgram_of_lt (Nat.lt_of_not_le hle)]
  | _ => rfl

theorem inert_performAll (h : m.status ≠ .ready) (hr : .reset ∉ as) :
    m.StandsStill (performAll m as).machine ∧ (performAll m as).calls = [] ∧
      ∀ k, ¬ Covers as k →
        (performAll m as).machine.state.memory.byte k = m.state.memory.byte k := by
  induction as generalizing m with
  | nil => exact ⟨.refl m, rfl, fun _ _ => rfl⟩
  | cons a as ih =>
    obtain ⟨ha, has⟩ : a ≠ .reset ∧ .reset ∉ as := by simpa [eq_comm] using hr
    have hstill := standsStill_perform h ha
    obtain ⟨hm, hc, hb⟩ := ih (m := (a.perform m).machine) (hstill.status ▸ h) has
    refine ⟨hstill.trans hm, ?_, fun k hk => ?_⟩
    · rw [performAll_cons, Outcome.calls_andThen, calls_perform_of_not_ready h ha, hc]
      rfl
    · refine (hb k ?_).trans (byte_perform_of_not_ready h ha ?_)
      · rintro ⟨rom, hmem, hin⟩
        exact hk ⟨rom, List.mem_cons_of_mem a hmem, hin⟩
      · rintro ⟨rom, hmem, hin⟩
        obtain rfl := List.mem_singleton.1 hmem
        exact hk ⟨rom, List.mem_cons_self, hin⟩

end Action

/-! ### What a halted machine answers -/

theorem Status.answer_ne_ready {s : Status} (h : s ≠ .ready) : s.answer ≠ .ok .ready := by
  cases s with
  | ready => exact absurd rfl h
  | exited code => simp [answer]
  | faulted e => simp [answer]

theorem Status.answer_eq_error_iff {s : Status} {e : Fault} :
    s.answer = .error e ↔ s = .faulted e := by
  cases s with
  | ready => simp [answer]
  | exited code => simp [answer]
  | faulted e' => simp [answer]

namespace Progress

variable {η : Type} {p : Progress η}

/-- The first tick of a halted machine ends a sequence of ticks. -/
theorem halted_advance_of_not_ready (h : p.outcome.machine.status ≠ .ready) :
    p.advance.halted = true := by
  rw [halted_advance, Machine.tick_of_not_ready h]
  exact Status.answer_ne_ready h

theorem value_advance_of_not_ready (h : p.outcome.machine.status ≠ .ready) :
    p.advance.outcome.value = p.outcome.machine.status.answer := by
  rw [outcome_advance, Outcome.value_andThen, Machine.tick_of_not_ready h]

theorem runFor_succ_of_not_ready (h : p.outcome.machine.status ≠ .ready) (n : ℕ) :
    p.runFor (n + 1) = if p.isOver then p else p.advance := by
  rw [runFor_succ, runFor_of_isOver (isOver_eq_true_iff.2 (.inl (halted_advance_of_not_ready h)))]

end Progress

namespace Machine

variable {η : Type} {m : Machine η}

theorem value_tick_of_not_ready (h : m.status ≠ .ready) : m.tick.value = m.status.answer := by
  rw [tick_of_not_ready h]

theorem value_step_of_not_ready (h : m.status ≠ .ready) (n : ℕ) :
    (m.step n).value = if n = 0 then .ok m.status else m.status.answer := by
  cases n with
  | zero => rfl
  | succ n =>
    have hm : (Progress.start m.idle).outcome.machine.status ≠ .ready := h
    rw [step, Progress.stepFor_succ, if_neg (by simp [Progress.start]),
      Progress.stepFor_of_halted (Progress.halted_advance_of_not_ready hm),
      Progress.value_advance_of_not_ready hm]
    rfl

theorem isOver_beginRun (m : Machine η) : m.beginRun.isOver = m.stopRequested := Bool.false_or _

theorem value_runFor_of_not_ready (h : m.status ≠ .ready) (n : ℕ) :
    (m.runFor n).value =
      if n = 0 ∨ m.stopRequested = true then .ok m.status else m.status.answer := by
  have hm : m.beginRun.outcome.machine.status ≠ .ready := h
  cases n with
  | zero => rfl
  | succ n =>
    show (m.beginRun.runFor (n + 1)).outcome.value = _
    rw [Progress.runFor_succ_of_not_ready hm, isOver_beginRun]
    by_cases hstop : m.stopRequested = true
    · rw [if_pos hstop, if_pos (.inr hstop)]; rfl
    · rw [if_neg hstop, if_neg (by simp [hstop]), Progress.value_advance_of_not_ready hm]; rfl

/-- A run without a budget is over on a halted machine after one tick at most. -/
theorem exists_runWithin?_of_not_ready (h : m.status ≠ .ready) {fuel : ℕ} (hf : fuel ≠ 0) :
    ∃ o, m.runWithin? fuel = some o ∧
      o.value = if m.stopRequested = true then .ok m.status else m.status.answer := by
  have hm : m.beginRun.outcome.machine.status ≠ .ready := h
  obtain ⟨k, rfl⟩ := Nat.exists_eq_succ_of_ne_zero hf
  have hover : (m.beginRun.runFor (k + 1)).isOver = true := by
    rw [Progress.runFor_succ_of_not_ready hm]
    split
    · assumption
    · exact Progress.isOver_eq_true_iff.2 (.inl (Progress.halted_advance_of_not_ready hm))
  refine ⟨m.runFor (k + 1), if_pos hover, ?_⟩
  rw [value_runFor_of_not_ready h]
  simp

end Machine

/-! ### Commands on a halted machine -/

namespace Command

variable {η : Type} {m : Machine η} {c : Command η} {cs : List (Command η)}

theorem exists_perform?_of_not_ready (h : m.status ≠ .ready) (hc : c ≠ .start 0) :
    ∃ o, c.perform? m = some o := by
  cases c with
  | start fuel =>
    have hfuel : fuel ≠ 0 := fun hf => hc (by rw [hf])
    obtain ⟨o, ho, -⟩ := Machine.exists_runWithin?_of_not_ready h hfuel
    exact ⟨withStatus o, by simp [perform?, ho]⟩
  | _ => exact ⟨_, rfl⟩

theorem standsStill_of_performAll? {o : Outcome η Unit} (h : m.status ≠ .ready)
    (hr : .reset ∉ cs) (ho : performAll? m cs = some o) :
    m.StandsStill o.machine ∧ o.calls = [] ∧
      ∀ k, ¬ Action.Covers (allActions m cs) k →
        o.machine.state.memory.byte k = m.state.memory.byte k := by
  have hmatch := matches_of_performAll? ho
  rw [hmatch.calls_eq, hmatch.1]
  exact Action.inert_performAll h fun hmem => hr (reset_mem_of_mem_allActions hmem)

/-- Commands on a halted machine come to an end, if none of them is a run without a budget that is
followed for no tick at all. -/
theorem exists_performAll?_of_not_ready (h : m.status ≠ .ready) (hr : .reset ∉ cs)
    (hs : .start 0 ∉ cs) : ∃ o, performAll? m cs = some o := by
  induction cs generalizing m with
  | nil => exact ⟨_, rfl⟩
  | cons c cs ih =>
    obtain ⟨hc, hcs⟩ : c ≠ .reset ∧ .reset ∉ cs := by simpa [eq_comm] using hr
    obtain ⟨hc', hcs'⟩ : c ≠ .start 0 ∧ .start 0 ∉ cs := by simpa [eq_comm] using hs
    obtain ⟨o₁, ho₁⟩ := exists_perform?_of_not_ready h hc'
    have hstill : m.StandsStill o₁.machine := by
      rw [(matches_of_perform? ho₁).1]
      exact (Action.inert_performAll h fun hmem => hc (reset_mem_actions_iff.1 hmem)).1
    obtain ⟨o₂, ho₂⟩ := ih (hstill.status ▸ h) hcs hcs'
    exact ⟨_, performAll?_cons_eq_some_iff.2 ⟨o₁, o₂, ho₁, ho₂, rfl⟩⟩

end Command

/-- **A halted machine is inert until it is reset.**  Commands without a reset leave its status, its
random source and its state as they are, but for the bytes at which a program that fits is loaded;
they make no callback, and they end.  At any later time every tick, every step and every run that
makes a tick answers with the fault, or with the exit; a step or a run without a tick answers with
the status; and a reset makes the machine ready. -/
theorem inert_of_halted {η : Type} (m : Machine η) (h : m.status ≠ .ready)
    (cs : List (Command η)) (hr : .reset ∉ cs) :
    (.start 0 ∉ cs → ∃ o, Command.performAll? m cs = some o) ∧
      ∀ o, Command.performAll? m cs = some o →
        o.machine.status = m.status ∧ o.machine.random = m.random ∧ o.calls = [] ∧
        o.machine.state = { m.state with memory := o.machine.state.memory } ∧
        (∀ k, o.machine.state.memory.byte k ≠ m.state.memory.byte k →
          ∃ rom, .loadProgram rom ∈ cs ∧ Program.start + rom.length ≤ Memory.size ∧
            Program.start ≤ k ∧ k < Program.start + rom.length) ∧
        o.machine.tick.value = m.status.answer ∧
        (∀ n, (o.machine.step n).value = if n = 0 then .ok m.status else m.status.answer) ∧
        (∀ n, (o.machine.runFor n).value =
          if n = 0 ∨ o.machine.stopRequested = true then .ok m.status else m.status.answer) ∧
        (∀ fuel ≠ 0, ∃ q, o.machine.runWithin? fuel = some q ∧
          q.value = if o.machine.stopRequested = true then .ok m.status else m.status.answer) ∧
        o.machine.reset.machine.status = .ready := by
  refine ⟨Command.exists_performAll?_of_not_ready h hr, fun o ho => ?_⟩
  obtain ⟨hstill, hcalls, hbyte⟩ := Command.standsStill_of_performAll? h hr ho
  have ho' : o.machine.status ≠ .ready := hstill.status ▸ h
  refine ⟨hstill.status, hstill.random, hcalls, hstill.state, fun k hk => ?_, ?_, ?_, ?_, ?_,
    o.machine.status_reset⟩
  · by_contra hnone
    refine hk (hbyte k ?_)
    rintro ⟨rom, hmem, hin⟩
    exact hnone ⟨rom, Command.loadProgram_mem_of_mem_allActions hmem, hin⟩
  · rw [← hstill.status]; exact Machine.value_tick_of_not_ready ho'
  · rw [← hstill.status]; exact Machine.value_step_of_not_ready ho'
  · rw [← hstill.status]; exact Machine.value_runFor_of_not_ready ho'
  · rw [← hstill.status]; exact fun fuel hf => Machine.exists_runWithin?_of_not_ready ho' hf

/-- A machine that has faulted at the very end of memory. -/
def faultedMachine : Machine Unit := { edgeMachine with status := .faulted (.outOfBounds 4096) }

/-- Ticks, a load, a stop request and runs leave a faulted machine faulted. -/
theorem inert_of_halted_faulted :
    faultedMachine.status ≠ .ready ∧
      ∃ o, Command.performAll? faultedMachine
          [.tick, .loadProgram [0x12, 0x00], .requestStop, .start 5, .step 3] = some o ∧
        o.machine.status = .faulted (.outOfBounds 4096) ∧ o.calls = [] ∧
        o.machine.state.memory.byte 0x202 = faultedMachine.state.memory.byte 0x202 ∧
        (o.machine.step 1).value = .error (.outOfBounds 4096) ∧
        (o.machine.runFor 0).value = .ok (.faulted (.outOfBounds 4096)) := by
  have hne : faultedMachine.status ≠ .ready := by simp [faultedMachine]
  obtain ⟨hex, hall⟩ := inert_of_halted faultedMachine hne
    [.tick, .loadProgram [0x12, 0x00], .requestStop, .start 5, .step 3] (by simp)
  obtain ⟨o, ho⟩ := hex (by simp)
  obtain ⟨hs, -, hc, -, hb, -, hstep, hrun, -⟩ := hall o ho
  refine ⟨hne, o, ho, hs, hc, ?_, hstep 1, (hrun 0).trans (if_pos (Or.inl rfl))⟩
  by_contra hk
  obtain ⟨rom, hmem, -, -, hlt⟩ := hb 0x202 hk
  obtain rfl : rom = [0x12, 0x00] := by simpa using hmem
  exact absurd hlt (by decide)

/-! ### Why a machine has halted -/

/-- What comes of fetching and executing a word, the state that it leaves put aside. -/
def State.fetchExecute (c : Surroundings) (r : RandomSource) (s : State) : Except Fault Effect :=
  match s.fetch with
  | .error e => .error e
  | .ok op => (execute c r s op).value

theorem State.fetchExecute_of_upcoming_error {c : Surroundings} {r : RandomSource} {s : State}
    {e : Fault} (h : s.upcoming c.dialect.stackLimit = .error e) :
    s.fetchExecute c r = .error e := by
  unfold fetchExecute
  cases hf : s.fetch with
  | error e' =>
    rw [upcoming_of_fetch_error hf] at h
    cases h
    rfl
  | ok op => simp only [execute_of_upcoming_error hf h]

/-- Counting the timers down does not change what is executed next. -/
theorem State.upcoming_countDown (limit : Option ℕ) (s : State) :
    s.countDown.upcoming limit = s.upcoming limit := rfl

namespace Machine

variable {η : Type} {m : Machine η}

/-- A status that the state explains: a fault that comes again whatever the keys and the random
source, or the word of an exit with the same code. -/
structure Explained (m : Machine η) : Prop where
  faulted : ∀ e, m.status = .faulted e → ∀ (keys : UInt8 → Bool) (r : RandomSource),
    m.state.fetchExecute ⟨m.config.dialect, keys⟩ r = .error e
  exited : ∀ code, m.status = .exited code →
    ∃ op, m.state.fetch = .ok op ∧ (group op).val = 0x0 ∧ (y op).val = 0x1 ∧ n op = code

/-- A status that is the answer to what would be executed next. -/
def HaltsHere (m : Machine η) : Prop :=
  match m.status with
  | .ready => True
  | .exited code => m.upcoming = .ok (.exit code)
  | .faulted e => m.upcoming = .error e

theorem haltsHere_of_ready (h : m.status = .ready) : m.HaltsHere := by
  unfold HaltsHere; rw [h]; trivial

theorem HaltsHere.explained (h : m.HaltsHere) : m.Explained where
  faulted e he keys r := by
    unfold HaltsHere at h
    rw [he] at h
    exact State.fetchExecute_of_upcoming_error h
  exited code hc := by
    unfold HaltsHere at h
    rw [hc] at h
    obtain ⟨op, hf, hd, -⟩ := State.upcoming_eq_ok_iff.1 h
    obtain ⟨hg, hy, hn⟩ := Instruction.decode?_eq_some_iff.1 hd
    exact ⟨op, hf, hg, hy, hn.symm⟩

/-- A tick that halts a machine leaves it where it halted. -/
theorem haltsHere_tick (h : m.HaltsHere) : m.tick.machine.HaltsHere := by
  rcases m.machine_tick_cases with ⟨-, hm⟩ | ⟨e, -, hu, hm⟩ | ⟨i, r, -, hu, hm⟩
  · rw [hm]; exact h
  · rw [hm]; exact hu
  · rw [hm]
    cases i with
    | exit code => exact (State.upcoming_countDown _ _).trans hu
    | _ => exact haltsHere_of_ready rfl

end Machine

namespace Action

variable {η : Type} {m : Machine η} {a : Action η} {as : List (Action η)}

theorem haltsHere_perform (h : m.HaltsHere) (ha : ∀ rom, a ≠ .loadProgram rom) :
    (a.perform m).machine.HaltsHere := by
  cases a with
  | tick => exact Machine.haltsHere_tick h
  | reset => exact Machine.haltsHere_of_ready m.status_reset
  | loadProgram rom => exact absurd rfl (ha rom)
  | _ => exact h

theorem haltsHere_performAll (h : m.HaltsHere) (ha : ∀ rom, .loadProgram rom ∉ as) :
    (performAll m as).machine.HaltsHere := by
  refine performAll_preserves (fun a hmem n hn => ?_) h
  exact haltsHere_perform hn fun rom he => ha rom (he ▸ hmem)

end Action

namespace Command

variable {η : Type} {m : Machine η} {c : Command η} {cs : List (Command η)}

/-- Whether a command puts a program into memory: it is a load, and it is not refused. -/
def loads (m : Machine η) : Command η → Bool
  | loadProgram rom => (m.loadProgram rom).value.isOk
  | _ => false

/-- Whether a program has been loaded since the machine halted; `b` tells whether one had been
before the commands.  As long as the machine is ready there is none. -/
def loadedSinceHalt (m : Machine η) (b : Bool) : List (Command η) → Bool
  | [] => b
  | c :: cs =>
      match c.perform? m with
      | none => b
      | some o => loadedSinceHalt o.machine (decide (m.status ≠ .ready) && (b || c.loads m)) cs

theorem haltsHere_of_perform? {o : Outcome η Answer} (ho : c.perform? m = some o)
    (h : m.HaltsHere) (hc : m.status = .ready ∨ c.loads m = false) : o.machine.HaltsHere := by
  by_cases hload : ∃ rom, c = .loadProgram rom
  · obtain ⟨rom, rfl⟩ := hload
    cases ho
    rcases hc with hs | hl
    · exact Machine.haltsHere_of_ready hs
    · cases hv : (m.loadProgram rom).value with
      | ok u => simp [loads, hv, Except.isOk, Except.toBool] at hl
      | error e =>
        show (m.loadProgram rom).machine.HaltsHere
        rw [(Machine.loadProgram_of_fault hv).1]
        exact h
  · rw [(matches_of_perform? ho).1]
    refine Action.haltsHere_performAll h fun rom hmem => hload ⟨rom, ?_⟩
    exact loadProgram_mem_actions_iff.1 hmem

theorem haltsHere_of_performAll? {b : Bool} {o : Outcome η Unit} (h : b = false → m.HaltsHere)
    (ho : performAll? m cs = some o) (hl : loadedSinceHalt m b cs = false) :
    o.machine.HaltsHere := by
  induction cs generalizing m b o with
  | nil => cases ho; exact h hl
  | cons c cs ih =>
    obtain ⟨o₁, o₂, hc, hcs, rfl⟩ := performAll?_cons_eq_some_iff.1 ho
    simp only [loadedSinceHalt, hc] at hl
    show o₂.machine.HaltsHere
    refine ih (fun hb => ?_) hcs hl
    by_cases hs : m.status = .ready
    · exact haltsHere_of_perform? hc (Machine.haltsHere_of_ready hs) (.inl hs)
    · obtain ⟨hb, hload⟩ : b = false ∧ c.loads m = false := by simpa [hs] using hb
      exact haltsHere_of_perform? hc (h hb) (.inr hload)

end Command

/-- **The status of a halted machine is explained by its state.**  After any commands, unless a
program has been loaded since the machine halted: if it is faulted, then fetching and executing
under its dialect ends with the same fault again, whatever keys are pressed and wherever the random
source stands; and if it has exited, then the word of that exit stands at its program counter. -/
theorem explained_of_performAll? {η : Type} (config : Config) (entropy : ChaCha.Key)
    (keys : η → UInt8 → Bool) (host : η) (cs : List (Command η)) (o : Outcome η Unit)
    (h : Command.performAll? (Machine.create config entropy keys host) cs = some o)
    (hl : Command.loadedSinceHalt (Machine.create config entropy keys host) false cs = false) :
    o.machine.Explained :=
  (Command.haltsHere_of_performAll? (fun _ => Machine.haltsHere_of_ready rfl) h hl).explained

/-- The word of an exit and a word that is no instruction are still at the program counter after
programs that did not fit. -/
theorem explained_after_refused_load :
    (∃ o, Command.performAll? (Machine.create {} ChaCha.zeroKey (fun (_ : Unit) _ => false) ())
        [.loadProgram [0x03, 0x17], .runFor 5, .loadProgram (List.replicate 3585 0), .tick] =
          some o ∧
      o.machine.status = .exited 7 ∧
      ∃ op, o.machine.state.fetch = .ok op ∧ (group op).val = 0 ∧ (y op).val = 1 ∧ n op = 7) ∧
    ∃ o, Command.performAll? (Machine.create {} ChaCha.zeroKey (fun (_ : Unit) _ => false) ())
        [.tick, .loadProgram (List.replicate 3585 0), .step 2] = some o ∧
      o.machine.status = .faulted (.unrecognizedOpcode 0) ∧
      ∀ keys r, o.machine.state.fetchExecute ⟨o.machine.config.dialect, keys⟩ r =
        .error (.unrecognizedOpcode 0) := by
  have hexit : (Command.performAll?
      (Machine.create {} ChaCha.zeroKey (fun (_ : Unit) _ => false) ())
      [.loadProgram [0x03, 0x17], .runFor 5, .loadProgram (List.replicate 3585 0), .tick]).map
        (fun o => o.machine.status) = some (.exited 7) ∧
      Command.loadedSinceHalt
        (Machine.create {} ChaCha.zeroKey (fun (_ : Unit) _ => false) ()) false
        [.loadProgram [0x03, 0x17], .runFor 5, .loadProgram (List.replicate 3585 0), .tick] =
          false := by
    decide +kernel
  have hfault : (Command.performAll?
      (Machine.create {} ChaCha.zeroKey (fun (_ : Unit) _ => false) ())
      [.tick, .loadProgram (List.replicate 3585 0), .step 2]).map
        (fun o => o.machine.status) = some (.faulted (.unrecognizedOpcode 0)) ∧
      Command.loadedSinceHalt
        (Machine.create {} ChaCha.zeroKey (fun (_ : Unit) _ => false) ()) false
        [.tick, .loadProgram (List.replicate 3585 0), .step 2] = false := by
    decide +kernel
  constructor
  · obtain ⟨o, ho, hs⟩ := Option.map_eq_some_iff.1 hexit.1
    exact ⟨o, ho, hs, (explained_of_performAll? _ _ _ _ _ o ho hexit.2).exited 7 hs⟩
  · obtain ⟨o, ho, hs⟩ := Option.map_eq_some_iff.1 hfault.1
    exact ⟨o, ho, hs, (explained_of_performAll? _ _ _ _ _ o ho hfault.2).faulted _ hs⟩

end ChipEight
