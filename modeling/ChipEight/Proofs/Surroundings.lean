import ChipEight.Proofs.RandomWords
import ChipEight.Proofs.Stepping

/-!
# What a machine sees of its surroundings

An instruction looks outside the state in three places only: it asks for a key, it starts a shift
from the operand that the dialect chooses, and it takes what a mask lets through of a random byte.
Two machines in the same state, whose next word finds the same there, remain in the same state.

* `Finding`, `Instruction.finding`: what an instruction finds outside the state;
* `Instruction.after_of_finding`: nothing else matters to it;
* `Machine.Twins`, `Machine.FindsSame`: machines in the same state, and words that find the same;
* `Intervention`, `Machine.beforeTick`: what may be done to a machine between two ticks;
* `Machine.beforeTick_related`: a relation that ticks and interventions respect;
* `surroundings_unnoticed`: the main result.
-/

namespace ChipEight

open Opcode

/-! ### What instructions find -/

/-- What an instruction can find outside the state. -/
inductive Finding
  | nothing
  /-- Whether a key is pressed. -/
  | key (on : Bool)
  /-- The value that a shift starts from. -/
  | operand (v : UInt8)
  /-- What a mask lets through of a random byte. -/
  | random (v : UInt8)

/-- What an instruction finds outside the state. -/
def Instruction.finding (c : Surroundings) (r : RandomSource) (s : State) : Instruction → Finding
  | skip (.keyPressed v) | skip (.keyReleased v) => .key (c.keys (c.keyCode s v))
  | arithmetic .shiftRight v w | arithmetic .shiftLeft v w =>
      .operand (c.dialect.shifted (s.register v) (s.register w))
  | random _ mask => .random (r.nextByte.1 &&& mask)
  | _ => .nothing

/-- Whether a word asks whether a key is pressed. -/
def Opcode.asksKey (op : UInt16) : Bool :=
  (group op).val == 0xE && (byte op == 0x9E || byte op == 0xA1)

/-- Whether a word shifts a register. -/
def Opcode.shifts (op : UInt16) : Bool :=
  (group op).val == 0x8 && ((n op).val == 0x6 || (n op).val == 0xE)

namespace Instruction

variable {c c' : Surroundings} {r r' : RandomSource} {s : State} {i : Instruction} {op : UInt16}

/-- An instruction that finds the same does the same. -/
theorem after_of_finding (h : i.finding c r s = i.finding c' r' s) :
    i.after c r s = i.after c' r' s := by
  cases i with
  | skip condition =>
    cases condition with
    | keyPressed v | keyReleased v =>
      have hkey : c.keys (c.keyCode s v) = c'.keys (c'.keyCode s v) := Finding.key.inj h
      simp only [after, execute, Condition.holds, hkey]
    | _ => rfl
  | arithmetic o v w =>
    cases o with
    | shiftRight | shiftLeft =>
      have hoperand : c.dialect.shifted (s.register v) (s.register w) =
          c'.dialect.shifted (s.register v) (s.register w) := Finding.operand.inj h
      simp only [after, execute, Arithmetic.apply, hoperand]
    | _ => rfl
  | random v mask =>
    have hbits : r.nextByte.1 &&& mask = r'.nextByte.1 &&& mask := Finding.random.inj h
    simp only [after, execute, hbits]
  | _ => rfl

/-- What the instruction of a word finds. -/
theorem finding_of_decode? (hd : decode? op = some i) :
    i.finding c r s =
      if asksKey op then .key (c.keys (c.keyCode s (x op)))
      else if shifts op then .operand (c.dialect.shifted (s.register (x op)) (s.register (y op)))
      else if takesWord op then .random (r.nextByte.1 &&& byte op)
      else .nothing := by
  have he := decode?_eq_some_iff.1 hd
  cases i with
  | skip condition =>
    cases condition with
    | keyPressed v | keyReleased v =>
      obtain ⟨hg, hb, rfl⟩ := he
      simp [asksKey, hg, hb, finding, -val_group]
    | _ => simp [asksKey, shifts, takesWord, he.1, finding, -val_group]
  | arithmetic o v w =>
    obtain ⟨hg, ho, rfl, rfl⟩ := he
    generalize hn : (n op).val = k at ho
    unfold arithmetic? at ho
    split at ho <;> cases ho <;>
      simp [asksKey, shifts, takesWord, hg, hn, finding, -val_group, -val_n]
  | clear | ret =>
    obtain rfl := he
    rfl
  | random v mask =>
    obtain ⟨hg, rfl, rfl⟩ := he
    simp [asksKey, shifts, takesWord, hg, finding, -val_group]
  | _ => simp [asksKey, shifts, takesWord, he.1, finding, -val_group]

end Instruction

/-! ### Twins -/

/-- Two machines, each with a host of its own, that are the same inside: in their state, their
status and their limit on pending calls. -/
structure Machine.Twins {η η' : Type} (m : Machine η) (n : Machine η') : Prop where
  state : n.state = m.state
  status : n.status = m.status
  stackLimit : n.config.dialect.stackLimit = m.config.dialect.stackLimit

namespace Machine

variable {η η' : Type} {m : Machine η} {n : Machine η'}

/-- The next tick answers the same on both machines and leaves them in the same state with the same
status. -/
structure TicksAlike (m : Machine η) (n : Machine η') : Prop where
  value : n.tick.value = m.tick.value
  state : n.tick.machine.state = m.tick.machine.state
  status : n.tick.machine.status = m.tick.machine.status

/-- The word that the next tick executes finds the same on both machines. -/
def FindsSame (m : Machine η) (n : Machine η') : Prop :=
  ∀ op ∈ m.executed?, ∀ i, Instruction.decode? op = some i →
    i.finding n.surroundings n.random m.state = i.finding m.surroundings m.random m.state

namespace Twins

/-- Twins execute the same instruction next, or meet the same fault. -/
theorem upcoming_eq (h : m.Twins n) : n.upcoming = m.upcoming := by
  rw [upcoming, upcoming, h.state, h.stackLimit]

/-- Twins execute the same word next. -/
theorem executed?_eq (h : m.Twins n) : n.executed? = m.executed? := by
  by_cases hs : m.status = .ready
  · have hs' : n.status = .ready := h.status.trans hs
    cases hu : m.upcoming with
    | error e =>
      rw [executed?_of_upcoming_error hu, executed?_of_upcoming_error (h.upcoming_eq.trans hu)]
    | ok i =>
      obtain ⟨op, hf, -, -⟩ := State.upcoming_eq_ok_iff.1 hu
      have hf' : n.state.fetch = .ok op := by rw [h.state, hf]
      rw [executed?_of_upcoming_ok hs hf hu,
        executed?_of_upcoming_ok hs' hf' (h.upcoming_eq.trans hu)]
  · rw [executed?_of_not_ready hs, executed?_of_not_ready (h.status ▸ hs)]

/-- Twins stay twins through a tick if its word finds the same on both. -/
theorem tick (h : m.Twins n) (hfind : m.FindsSame n) : m.tick.machine.Twins n.tick.machine := by
  by_cases hs : m.status = .ready
  · have hs' : n.status = .ready := h.status.trans hs
    cases hu : m.upcoming with
    | error e =>
      rw [(tick_of_upcoming_error hs hu).1,
        (tick_of_upcoming_error hs' (h.upcoming_eq.trans hu)).1]
      exact ⟨h.state, rfl, h.stackLimit⟩
    | ok i =>
      obtain ⟨op, hf, hd, -⟩ := State.upcoming_eq_ok_iff.1 hu
      have hsame := hfind op (executed?_of_upcoming_ok hs hf hu) i hd
      obtain ⟨⟨r, hm⟩, -⟩ := tick_of_upcoming_ok hs hu
      obtain ⟨⟨r', hn⟩, -⟩ := tick_of_upcoming_ok hs' (h.upcoming_eq.trans hu)
      rw [hm, hn]
      refine ⟨?_, rfl, h.stackLimit⟩
      show (i.after n.surroundings n.random n.state).countDown =
        (i.after m.surroundings m.random m.state).countDown
      rw [h.state, Instruction.after_of_finding hsame]
  · rw [tick_of_not_ready hs, tick_of_not_ready (h.status ▸ hs)]
    exact h

/-- The tick that leaves two machines twins answers the same on both. -/
theorem ticksAlike (h : m.tick.machine.Twins n.tick.machine) : m.TicksAlike n where
  value := by rw [n.value_tick, m.value_tick, h.status]
  state := h.state
  status := h.status

/-- Twins take random words alike. -/
theorem random_tick (h : m.Twins n) (hr : n.random = m.random) :
    n.tick.machine.random = m.tick.machine.random := by
  cases hx : m.executed? with
  | none =>
    obtain ⟨st, hm⟩ := machine_tick_of_not_executed hx
    obtain ⟨st', hn⟩ := machine_tick_of_not_executed (h.executed?_eq.trans hx)
    rw [hm, hn, hr]
  | some op =>
    rw [random_tick_of_executed hx, random_tick_of_executed (h.executed?_eq.trans hx), hr]

/-- Twins call as many displays, and the buzzer if they have one, alike. -/
theorem calls_tick (h : m.Twins n) (hnext : m.tick.machine.Twins n.tick.machine)
    (hd : n.displays.length = m.displays.length) (hb : n.buzzer.isSome = m.buzzer.isSome) :
    n.tick.calls = m.tick.calls := by
  cases hx : m.executed? with
  | none =>
    rw [calls_tick_of_not_executed hx, calls_tick_of_not_executed (h.executed?_eq.trans hx)]
  | some op =>
    rw [calls_tick_of_executed hx, calls_tick_of_executed (h.executed?_eq.trans hx)]
    simp only [showings, buzzing, hnext.state, m.builtAlike_tick.displays,
      n.builtAlike_tick.displays, m.builtAlike_tick.buzzer, n.builtAlike_tick.buzzer, hd, hb]

end Twins

end Machine

/-! ### Ticks among interventions -/

/-- Something done to a machine from outside between two ticks.  It may change the host, with it the
keys, and displays, buzzer and requests to stop; what it may not change, only a tick, a reset or a
load can, and the configuration nothing at all. -/
structure Intervention (η : Type) where
  apply : Machine η → Machine η
  state_apply : ∀ m, (apply m).state = m.state
  status_apply : ∀ m, (apply m).status = m.status
  config_apply : ∀ m, (apply m).config = m.config
  random_apply : ∀ m, (apply m).random = m.random

namespace Intervention

variable {η : Type}

/-- Nothing is done. -/
def none : Intervention η := ⟨id, fun _ => rfl, fun _ => rfl, fun _ => rfl, fun _ => rfl⟩

/-- The host changes. -/
def ofChange (change : η → Reply η) : Intervention η where
  apply m := (m.updateHost change).machine
  state_apply _ := rfl
  status_apply _ := rfl
  config_apply _ := rfl
  random_apply _ := rfl

end Intervention

namespace Machine

variable {η η' : Type}

/-- The machine before tick `k`, the ticks before it having been made with interventions in front of
each of them. -/
def beforeTick (m : Machine η) (w : ℕ → Intervention η) : ℕ → Machine η
  | 0 => (w 0).apply m
  | k + 1 => (w (k + 1)).apply (m.beforeTick w k).tick.machine

/-- If nothing is done, only ticks have been made. -/
theorem beforeTick_none (m : Machine η) (k : ℕ) :
    m.beforeTick (fun _ => .none) k = m.afterTicks k := by
  induction k with
  | zero => rfl
  | succ k ih => rw [afterTicks_succ, ← ih]; rfl

/-- A relation that no intervention breaks, and no tick up to some number, holds before and after
each of these ticks. -/
theorem beforeTick_related {R : Machine η → Machine η' → Prop} {m : Machine η} {n : Machine η'}
    (w : ℕ → Intervention η) (w' : ℕ → Intervention η') {k : ℕ}
    (hw : ∀ v v' m n, R m n → R ((v : Intervention η).apply m) ((v' : Intervention η').apply n))
    (h : R m n)
    (htick : ∀ j < k, R (m.beforeTick w j) (n.beforeTick w' j) →
      R (m.beforeTick w j).tick.machine (n.beforeTick w' j).tick.machine) :
    ∀ j < k, R (m.beforeTick w j) (n.beforeTick w' j) ∧
      R (m.beforeTick w j).tick.machine (n.beforeTick w' j).tick.machine := by
  intro j
  induction j with
  | zero =>
    intro hj
    have h0 : R (m.beforeTick w 0) (n.beforeTick w' 0) := hw _ _ _ _ h
    exact ⟨h0, htick 0 hj h0⟩
  | succ j ih =>
    intro hj
    obtain ⟨-, hprev⟩ := ih (Nat.lt_of_succ_lt hj)
    have hnext : R (m.beforeTick w (j + 1)) (n.beforeTick w' (j + 1)) := hw _ _ _ _ hprev
    exact ⟨hnext, htick (j + 1) hj hnext⟩

/-- Twins stay twins whatever is done to either of them. -/
theorem Twins.intervene {m : Machine η} {n : Machine η'} (h : m.Twins n) (v : Intervention η)
    (v' : Intervention η') : (v.apply m).Twins (v'.apply n) where
  state := by rw [v.state_apply, v'.state_apply, h.state]
  status := by rw [v.status_apply, v'.status_apply, h.status]
  stackLimit := by rw [v.config_apply, v'.config_apply, h.stackLimit]

/-- If all that a word asks for gets the same answer on two machines of one dialect, and what it
takes of a random byte is nothing or the same, it finds the same on both. -/
theorem findsSame_of_answers {m : Machine η} {n : Machine η'}
    (hdialect : n.config.dialect = m.config.dialect)
    (h : ∀ op ∈ m.executed?,
      (asksKey op = true →
        let code := m.surroundings.keyCode m.state (x op)
        n.surroundings.keys code = m.surroundings.keys code) ∧
      (takesWord op = true → byte op = 0 ∨ n.random = m.random)) : m.FindsSame n := by
  intro op hop i hd
  obtain ⟨hkey, hword⟩ := h op hop
  have hd' : n.surroundings.dialect = m.surroundings.dialect := hdialect
  have hcode : n.surroundings.keyCode m.state (x op) = m.surroundings.keyCode m.state (x op) := by
    simp only [Surroundings.keyCode, hd']
  rw [Instruction.finding_of_decode? hd, Instruction.finding_of_decode? hd]
  by_cases hk : asksKey op = true
  · rw [if_pos hk, if_pos hk, hcode, hkey hk]
  · rw [if_neg hk, if_neg hk, hd']
    by_cases hs : shifts op = true
    · rw [if_pos hs, if_pos hs]
    · rw [if_neg hs, if_neg hs]
      by_cases ht : takesWord op = true
      · rw [if_pos ht, if_pos ht]
        rcases hword ht with hmask | hrandom
        · -- the mask lets nothing through
          rw [hmask, UInt8.and_zero, UInt8.and_zero]
        · rw [hrandom]
      · rw [if_neg ht, if_neg ht]

end Machine

/-- **Only keys and random words let a machine see its surroundings.**  Let two machines be in the
same state, with the same status and the same dialect, and let them make `k` ticks each, whatever
is done to either of them from outside in front of each tick; hosts, keys, displays, buzzers, tick
rates and random sources need not have anything in common.  If the words that the first one executes
ask for no key and draw no random byte, unless the mask lets nothing of it through, then each of the
ticks answers the same on both and leaves the same state and status.  The same holds if words do ask
for keys, as long as both get the same answer each time. -/
theorem surroundings_unnoticed {η η' : Type} (m : Machine η) (n : Machine η')
    (hstate : n.state = m.state) (hstatus : n.status = m.status)
    (hdialect : n.config.dialect = m.config.dialect)
    (w : ℕ → Intervention η) (w' : ℕ → Intervention η') (k : ℕ) :
    let M := m.beforeTick w
    let N := n.beforeTick w'
    ((∀ j < k, ∀ op ∈ (M j).executed?,
        asksKey op = false ∧ (takesWord op = true → byte op = 0)) →
      ∀ j < k, (M j).TicksAlike (N j)) ∧
    ((∀ j < k, ∀ op ∈ (M j).executed?,
        (asksKey op = true →
          let code := (M j).surroundings.keyCode (M j).state (x op)
          (N j).surroundings.keys code = (M j).surroundings.keys code) ∧
        (takesWord op = true → byte op = 0)) →
      ∀ j < k, (M j).TicksAlike (N j)) := by
  intro M N
  have hall : (∀ j < k, ∀ op ∈ (M j).executed?,
        (asksKey op = true →
          let code := (M j).surroundings.keyCode (M j).state (x op)
          (N j).surroundings.keys code = (M j).surroundings.keys code) ∧
        (takesWord op = true → byte op = 0)) →
      ∀ j < k, (M j).TicksAlike (N j) := by
    intro hfind j hj
    have hsame := Machine.beforeTick_related w w'
      (R := fun m n => m.Twins n ∧ n.config.dialect = m.config.dialect)
      (fun v v' m n h => ⟨h.1.intervene v v', by rw [v.config_apply, v'.config_apply, h.2]⟩)
      ⟨⟨hstate, hstatus, by rw [hdialect]⟩, hdialect⟩
      fun j hj h => ⟨h.1.tick (Machine.findsSame_of_answers h.2 fun op hop =>
          (hfind j hj op hop).imp_right fun hword ht => .inl (hword ht)), by
        rw [(M j).builtAlike_tick.config, (N j).builtAlike_tick.config, h.2]⟩
    obtain ⟨-, hafter, -⟩ := hsame j hj
    exact hafter.ticksAlike
  refine ⟨fun hblind => hall fun j hj op hop => ?_, hall⟩
  obtain ⟨hkey, hword⟩ := hblind j hj op hop
  exact ⟨fun h => absurd h (by rw [hkey]; exact Bool.false_ne_true), hword⟩

/-- A program that draws a random byte of which the mask lets nothing through, loads the code of a
key and skips if that key is pressed. -/
def askingProgram : List UInt8 := [0xC1, 0x00, 0x62, 0x05, 0xE2, 0x9E]

/-- A machine on which no key is ever pressed. -/
def quietMachine : Machine Unit := (poweredOn.loadProgram askingProgram).machine

/-- A machine with another seed and another rate, whose key 3 is pressed while its host says so. -/
def restlessMachine : Machine Bool :=
  (Machine.create { tickRate := 1, seed := some 7 } ChaCha.zeroKey (fun h k => h && k == 3) true
    |>.loadProgram askingProgram).machine

/-- The key 2 is pressed on neither machine, though the key 3 goes up and down on one of them. -/
theorem surroundings_unnoticed_restless :
    let M := quietMachine.beforeTick fun _ => .none
    let N := restlessMachine.beforeTick fun _ => .ofChange fun h => { host := !h }
    (∀ j < 2, ∀ op ∈ (M j).executed?,
        asksKey op = false ∧ (takesWord op = true → byte op = 0)) ∧
      (∀ j < 3, ∀ op ∈ (M j).executed?,
        (asksKey op = true →
          let code := (M j).surroundings.keyCode (M j).state (x op)
          (N j).surroundings.keys code = (M j).surroundings.keys code) ∧
        (takesWord op = true → byte op = 0)) ∧
      (M 1).TicksAlike (N 1) ∧ (M 2).TicksAlike (N 2) := by
  intro M N
  have hwords : (M 0).executed? = some 0xC100 ∧ (M 1).executed? = some 0x6205 ∧
      (M 2).executed? = some 0xE29E := by
    decide +kernel
  obtain ⟨h0, h1, h2⟩ := hwords
  have hblind : ∀ j < 2, ∀ op ∈ (M j).executed?,
      asksKey op = false ∧ (takesWord op = true → byte op = 0) := by
    intro j hj op hop
    interval_cases j
    · obtain rfl := Option.some.inj (h0.symm.trans hop)
      decide
    · obtain rfl := Option.some.inj (h1.symm.trans hop)
      decide
  have hanswers : ∀ j < 3, ∀ op ∈ (M j).executed?,
      (asksKey op = true →
        let code := (M j).surroundings.keyCode (M j).state (x op)
        (N j).surroundings.keys code = (M j).surroundings.keys code) ∧
      (takesWord op = true → byte op = 0) := by
    intro j hj op hop
    rcases Nat.lt_succ_iff_lt_or_eq.1 hj with hj | rfl
    · obtain ⟨hkey, hword⟩ := hblind j hj op hop
      exact ⟨fun h => absurd h (by rw [hkey]; exact Bool.false_ne_true), hword⟩
    · obtain rfl := Option.some.inj (h2.symm.trans hop)
      decide +kernel
  have hlaw := surroundings_unnoticed quietMachine restlessMachine rfl rfl rfl
    (fun _ => .none) fun _ => .ofChange fun h => { host := !h }
  exact ⟨hblind, hanswers, (hlaw 2).1 hblind 1 (by decide), (hlaw 3).2 hanswers 2 (by decide)⟩

end ChipEight
