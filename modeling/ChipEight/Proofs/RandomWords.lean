import ChipEight.Proofs.Bounds
import ChipEight.Proofs.ExecutedWords

/-!
# Random words are taken in order

The words `CXNN` are the only ones that ask the random source for a word, and each takes the next
one, whatever becomes of it.  So the `j`-th of them that a machine executes finds the source after
`j` words, however the machine came there, and two machines of one seed draw the same bytes.

* `Opcode.takesWord`, `Execution.takings`: the words that take a random word, and their executions;
* `RandomSource.skip`: a source after a number of words;
* `Action.random_perform`: the source after one action;
* `Action.random_performAll`, `Action.random_of_getElem?_takings`: the source after a history, and
  where the `j`-th execution that takes a word finds it;
* `random_words_in_order`: the main result.
-/

namespace ChipEight

open Opcode

/-- Whether a word takes a word from the random source. -/
def Opcode.takesWord (op : UInt16) : Bool := (group op).val == 0xC

/-- The executions that take a random word. -/
def Execution.takings {η : Type} (es : List (Execution η)) : List (Execution η) :=
  es.filter fun e => takesWord e.opcode

/-- A random source after `n` more words. -/
def RandomSource.skip (r : RandomSource) (n : ℕ) : RandomSource :=
  { r with taken := r.taken + n }

namespace RandomSource

theorem skip_skip (r : RandomSource) (a b : ℕ) : (r.skip a).skip b = r.skip (a + b) := by
  simp [skip, Nat.add_assoc]

end RandomSource

/-! ### One instruction -/

namespace Instruction

variable {op : UInt16} {i : Instruction} {c : Surroundings} {r : RandomSource} {s : State}

theorem decode?_of_takesWord (h : takesWord op = true) :
    decode? op = some (.random (x op) (byte op)) :=
  decode?_eq_some_iff.2 ⟨by simpa [takesWord, -val_group] using h, rfl, rfl⟩

theorem randomAfter_of_decode? (h : decode? op = some i) :
    i.randomAfter r = if takesWord op then r.skip 1 else r := by
  by_cases hw : takesWord op = true
  · obtain rfl : i = .random (x op) (byte op) :=
      Option.some.inj (h.symm.trans (decode?_of_takesWord hw))
    rw [if_pos hw]
    rfl
  · rw [if_neg hw]
    cases i with
    | random v mask =>
      have he := decode?_eq_some_iff.1 h
      simp [takesWord, he.1, -val_group] at hw
    | _ => rfl

end Instruction

/-! ### One action -/

namespace Machine

variable {η : Type} {m : Machine η} {op : UInt16}

theorem random_tick_of_executed (h : m.executed? = some op) :
    m.tick.machine.random = if takesWord op then m.random.skip 1 else m.random := by
  obtain ⟨i, r, hd, hm⟩ := machine_tick_of_executed h
  rw [hm]
  exact Instruction.randomAfter_of_decode? hd

/-- A word that takes a random word puts its low byte, masked, into a register. -/
theorem register_tick_of_takesWord (h : m.executed? = some op) (hw : takesWord op = true) :
    m.tick.machine.state.register (x op) = m.random.nextByte.1 &&& byte op := by
  obtain ⟨i, r, hd, hm⟩ := machine_tick_of_executed h
  obtain rfl : i = .random (x op) (byte op) :=
    Option.some.inj (hd.symm.trans (Instruction.decode?_of_takesWord hw))
  rw [hm]
  exact State.register_setRegister_self _ _ _

end Machine

namespace Action

variable {η : Type} {m : Machine η} {a : Action η} {as : List (Action η)}

/-- Only the execution of a word that draws moves the random source, and by one word. -/
theorem random_perform (m : Machine η) (a : Action η) :
    (a.perform m).machine.random =
      if (a.execution? m).any (fun e => takesWord e.opcode) then m.random.skip 1 else m.random := by
  cases hx : a.execution? m with
  | none => simpa using random_perform_of_no_execution hx
  | some e =>
    obtain ⟨rfl, rfl, hexec⟩ := execution?_eq_some_iff.1 hx
    exact Machine.random_tick_of_executed hexec

/-- The first action draws and the rest follow on its word, or it does not draw. -/
theorem takings_cons_cases (m : Machine η) (a : Action η) (as : List (Action η)) :
    (∃ e, e.before = m ∧ takesWord e.opcode = true ∧
      (a.perform m).machine.random = m.random.skip 1 ∧
      Execution.takings (executions m (a :: as)) =
        e :: Execution.takings (executions (a.perform m).machine as)) ∨
    (a.perform m).machine.random = m.random ∧
      Execution.takings (executions m (a :: as)) =
        Execution.takings (executions (a.perform m).machine as) := by
  have hrandom := random_perform m a
  cases hx : a.execution? m with
  | none =>
    rw [hx] at hrandom
    exact .inr ⟨by simpa using hrandom, by rw [executions_cons_of_none hx]⟩
  | some e =>
    rw [hx] at hrandom
    rw [executions_cons_of_some hx]
    obtain ⟨rfl, rfl, -⟩ := execution?_eq_some_iff.1 hx
    by_cases hw : takesWord e.opcode = true
    · exact .inl ⟨e, rfl, hw, by simpa [hw] using hrandom, by simp [Execution.takings, hw]; rfl⟩
    · exact .inr ⟨by simpa [hw] using hrandom, by simp [Execution.takings, hw]; rfl⟩

theorem random_performAll (m : Machine η) (as : List (Action η)) :
    (performAll m as).machine.random =
      m.random.skip (Execution.takings (executions m as)).length := by
  induction as generalizing m with
  | nil => rfl
  | cons a as ih =>
    rw [performAll_cons, Outcome.machine_andThen, ih]
    rcases takings_cons_cases m a as with ⟨e, -, -, hr, hd⟩ | ⟨hr, hd⟩
    · rw [hr, hd, RandomSource.skip_skip, List.length_cons, Nat.add_comm]
    · rw [hr, hd]

/-- The `j`-th draw finds the source after `j` words. -/
theorem random_of_getElem?_takings {j : ℕ} {e : Execution η}
    (h : (Execution.takings (executions m as))[j]? = some e) :
    e.before.random = m.random.skip j := by
  induction as generalizing m j with
  | nil => simp [Execution.takings] at h
  | cons a as ih =>
    rcases takings_cons_cases m a as with ⟨e', rfl, -, hr, hd⟩ | ⟨hr, hd⟩
    · rw [hd] at h
      cases j with
      | zero =>
        obtain rfl : e' = e := Option.some.inj h
        rfl
      | succ j => rw [ih h, hr, RandomSource.skip_skip, Nat.add_comm]
    · rw [hd] at h
      rw [ih h, hr]

end Action

namespace Command

variable {η : Type} {m : Machine η} {c : Command η} {cs : List (Command η)}

theorem random_of_performAll? {o : Outcome η Unit} (h : performAll? m cs = some o) :
    o.machine.random = m.random.skip (Execution.takings (executions m cs)).length := by
  rw [(matches_of_performAll? h).1]
  exact Action.random_performAll m _

/-- A command takes as many words as it executes words `CXNN`. -/
theorem random_of_perform? {o : Outcome η Answer} (h : c.perform? m = some o) :
    o.machine.random = m.random.skip (Execution.takings (executions m [c])).length := by
  have hall : performAll? m [c] = some (o.andThen Machine.idle) :=
    performAll?_cons_eq_some_iff.2 ⟨o, o.machine.idle, h, rfl, rfl⟩
  exact random_of_performAll? hall

theorem random_of_perform?_of_no_tick {o : Outcome η Answer} (h : c.perform? m = some o)
    (ht : .tick ∉ c.actions m) : o.machine.random = m.random := by
  rw [(matches_of_perform? h).1]
  refine Action.performAll_preserves (P := fun n => n.random = m.random) (fun a ha n hn => ?_) rfl
  have hnone : a.execution? n = none :=
    Action.execution?_of_ne_tick (fun h => ht (h ▸ ha)) n
  exact (Action.random_perform_of_no_execution hnone).trans hn

/-- The byte of the `j`-th execution that takes a word: the low one of word `j`, masked. -/
theorem register_after_takings {w : ℕ → UInt32} (hw : m.random = ⟨w, 0⟩) {j : ℕ}
    {e : Execution η} (h : (Execution.takings (executions m cs))[j]? = some e) :
    e.after.state.register (x e.opcode) = (w j).toUInt8 &&& byte e.opcode := by
  have hrandom := Action.random_of_getElem?_takings h
  obtain ⟨hmem, htakes⟩ := List.mem_filter.1 (List.mem_of_getElem? h)
  have hx := Action.executed?_of_mem_executions hmem
  rw [Execution.after, Machine.register_tick_of_takesWord hx htakes, hrandom, hw]
  simp [RandomSource.skip, RandomSource.nextByte]

end Command

/-- **Random words are neither lost, repeated nor taken again.**  Let a machine be built with a seed
whose source gives the words `w 0, w 1, …`.  Over any commands, the `j`-th executed word `CXNN` puts
the low byte of `w j`, masked with `NN`, into its register, and afterwards as many words have been
taken as such words have been executed, also those that mask everything away.  At no machine does
another executed word, a tick that faults or finds the machine halted, or a command that makes no
tick take a word or go back; a step or a run takes those of its ticks.  So the `j`-th words `CXNN`
of two histories draw the same byte, whatever else is different about two machines of one seed. -/
theorem random_words_in_order {η : Type} (config : Config) {seed : UInt64}
    (hseed : config.seed = some seed) (entropy : ChaCha.Key) (keys : η → UInt8 → Bool) (host : η)
    (cs : List (Command η)) :
    let m := Machine.create config entropy keys host
    let w := (RandomSource.ofSeed seed).word
    let takings := Execution.takings (Command.executions m cs)
    (∀ j e, takings[j]? = some e →
      (e.after.state.register (x e.opcode)).toNat =
        (w j).toNat % 256 &&& (byte e.opcode).toNat) ∧
    (∀ o, Command.performAll? m cs = some o → o.machine.random = ⟨w, takings.length⟩) ∧
    (∀ (n : Machine η) op, n.executed? = some op →
      n.tick.machine.random = if (group op).val = 0xC then n.random.skip 1 else n.random) ∧
    (∀ n : Machine η, n.status ≠ .ready ∨ (∃ e, n.tick.value = .error e) →
      n.tick.machine.random = n.random) ∧
    (∀ (n : Machine η) (c : Command η) o, c.perform? n = some o →
      o.machine.random = n.random.skip (Execution.takings (Command.executions n [c])).length ∧
      (.tick ∉ c.actions n → o.machine.random = n.random)) ∧
    ∀ (θ : Type) (config' : Config) (entropy' : ChaCha.Key) (keys' : θ → UInt8 → Bool) (host' : θ)
      (cs' : List (Command θ)) (j : ℕ) (e : Execution η) (e' : Execution θ),
      config'.seed = some seed → takings[j]? = some e →
      (Execution.takings
        (Command.executions (Machine.create config' entropy' keys' host') cs'))[j]? = some e' →
      e.before.random.nextByte.1 = e'.before.random.nextByte.1 := by
  intro m w takings
  have hrandom : m.random = ⟨w, 0⟩ := Machine.random_create_of_seed hseed entropy keys host
  refine ⟨fun j e he => ?_, fun o ho => ?_, fun n op h => ?_, fun n h => ?_,
    fun n c o ho => ⟨Command.random_of_perform? ho, Command.random_of_perform?_of_no_tick ho⟩,
    fun θ config' entropy' keys' host' cs' j e e' hseed' he he' => ?_⟩
  · rw [Command.register_after_takings hrandom he, UInt8.toNat_and, UInt32.toNat_toUInt8]
  · rw [Command.random_of_performAll? ho, hrandom]
    simp only [RandomSource.skip, Nat.zero_add]
    rfl
  · simpa [takesWord, -val_group] using Machine.random_tick_of_executed h
  · exact Action.random_perform_of_no_execution (Action.execution?_tick_of_fault h)
  · have hrandom' : (Machine.create config' entropy' keys' host').random = m.random :=
      (Machine.random_create_of_seed hseed' entropy' keys' host').trans hrandom.symm
    rw [Action.random_of_getElem?_takings he, Action.random_of_getElem?_takings he', hrandom']

/-- A machine with the seed 42. -/
def seeded : Machine Unit := Machine.create { seed := some 42 } ChaCha.zeroKey (fun _ _ => false) ()

/-- Two programs with a reset between them: the first draws twice, once with nothing left by the
mask, the second once. -/
def diceProgram : List (Command Unit) :=
  [.loadProgram [0xC0, 0xFF, 0xC1, 0x00], .step 3, .reset, .loadProgram [0xC2, 0x0F], .runFor 1]

/-- The draw after the reset uses the third word of the seed. -/
theorem random_words_in_order_reset :
    ∃ o e, Command.performAll? seeded diceProgram = some o ∧
      o.machine.random = ⟨(RandomSource.ofSeed 42).word, 3⟩ ∧
      (Execution.takings (Command.executions seeded diceProgram))[2]? = some e ∧
      e.opcode = 0xC20F ∧
      (e.after.state.register 2).toNat =
        ((RandomSource.ofSeed 42).word 2).toNat % 256 &&& 0x0F := by
  have hend : (Command.performAll? seeded diceProgram).isSome = true := by decide +kernel
  have hops : (Execution.takings (Command.executions seeded diceProgram)).map Execution.opcode =
      [0xC0FF, 0xC100, 0xC20F] := by
    decide +kernel
  obtain ⟨o, ho⟩ := Option.isSome_iff_exists.1 hend
  have hlen : (Execution.takings (Command.executions seeded diceProgram)).length = 3 := by
    simpa using congrArg List.length hops
  have hthird : ((Execution.takings (Command.executions seeded diceProgram))[2]?).map
      Execution.opcode = some 0xC20F := by
    rw [← List.getElem?_map, hops]
    rfl
  obtain ⟨e, he, hop⟩ := Option.map_eq_some_iff.1 hthird
  have hlaw := random_words_in_order { seed := some 42 } rfl 0 (fun _ _ => false) () diceProgram
  have hbyte := hlaw.1 2 e he
  rw [hop] at hbyte
  exact ⟨o, e, ho, hlen ▸ hlaw.2.1 o ho, he, hop, hbyte⟩

end ChipEight
