import ChipEight.Proofs.Bounds
import ChipEight.Proofs.Callbacks

/-!
# Calls and returns nest

A call pushes its return address, a return takes the latest one, and nothing else touches the
pending calls.  So as long as there are more of them than before a call, those from before it and
its own return address lie untouched at the bottom, and what first leads back to their number is the
return from that very call.

* `Machine.stack_tick_cases`: what a tick can do to the pending calls;
* `Action.suffix_perform`, `Action.suffix_performAll`: the lower part of the stack persists through
  one action and through any number of them;
* `Machine.tick_of_suffix`: the tick that removes the lowest of the upper calls is a return;
* `call_ret_nest`: the main result.
-/

namespace ChipEight

open Opcode

theorem Address.toNat_toWord_ofWord (w : UInt16) : (ofWord w).toWord.toNat = w.toNat % 4096 := by
  simp only [ofWord, toWord, UInt16.toNat_ofBitVec, BitVec.toNat_setWidth, UInt16.toNat_toBitVec]
  omega

/-! ### One action -/

namespace Machine

variable {η : Type} {m : Machine η}

/-- A tick leaves the pending calls alone, adds one, or returns from the latest one. -/
theorem stack_tick_cases (m : Machine η) :
    m.tick.machine.state.stack = m.state.stack ∨
      (∃ a, m.tick.machine.state.stack = a :: m.state.stack) ∨
      ∃ a, m.executed? = some 0x00EE ∧ m.state.stack = a :: m.tick.machine.state.stack ∧
        m.tick.machine.state.pc = (Address.ofWord a).toWord := by
  rcases m.machine_tick_cases with ⟨-, hm⟩ | ⟨e, -, -, hm⟩ | ⟨i, r, hs, hu, hm⟩
  · exact Or.inl (by rw [hm])
  · exact Or.inl (by rw [hm])
  · have hstack : m.tick.machine.state.stack = i.nextStack m.state := by
      rw [hm]; exact Instruction.stack_after
    have hpc : m.tick.machine.state.pc = i.nextPc m.surroundings m.state := by
      rw [hm]; exact Instruction.pc_after
    rw [hstack, hpc]
    cases i with
    | call a => exact Or.inr (Or.inl ⟨_, rfl⟩)
    | ret =>
      obtain ⟨op, hf, hd, hn⟩ := State.upcoming_eq_ok_iff.1 hu
      obtain rfl : op = 0x00EE := Instruction.decode?_eq_some_iff.1 hd
      obtain ⟨a, rest, hrest⟩ : ∃ a rest, m.state.stack = a :: rest := by
        simpa [Instruction.refusal?, List.ne_nil_iff_exists_cons] using hn
      refine Or.inr (Or.inr ⟨a, executed?_of_upcoming_ok hs hf hu, ?_, ?_⟩)
      · simp only [Instruction.nextStack, hrest, List.tail_cons]
      · simp only [Instruction.nextPc, hrest, List.headD_cons]
    | _ => exact Or.inl rfl

/-- If a tick leaves fewer pending calls than the lower part of them had, it is a return, and what
it takes is the topmost of that part. -/
theorem tick_of_suffix {a : UInt16} {rest : List UInt16} (h : a :: rest <:+ m.state.stack)
    (hlen : m.tick.machine.state.stack.length ≤ rest.length) :
    m.executed? = some 0x00EE ∧ m.tick.machine.state.stack = rest ∧
      m.tick.machine.state.pc = (Address.ofWord a).toWord := by
  have hle : rest.length + 1 ≤ m.state.stack.length := by simpa using h.length_le
  rcases m.stack_tick_cases with hsame | ⟨b, hpush⟩ | ⟨b, hx, hpop, hpc⟩
  · rw [hsame] at hlen
    exact absurd hlen (Nat.not_le.2 hle)
  · rw [hpush, List.length_cons] at hlen
    exact absurd hlen (by omega)
  · rw [hpop, List.suffix_cons_iff] at h
    rcases h with heq | hsuf
    · obtain ⟨rfl, rfl⟩ := List.cons.inj heq
      exact ⟨hx, rfl, hpc⟩
    · exact absurd hsuf.length_le (by simp only [List.length_cons]; omega)

end Machine

namespace Action

variable {η : Type} {m : Machine η} {a : Action η} {rest : List UInt16}

theorem stack_perform_of_not_tick (ht : a ≠ .tick) (hr : a ≠ .reset) :
    (a.perform m).machine.state.stack = m.state.stack := by
  cases a with
  | tick => exact absurd rfl ht
  | reset => exact absurd rfl hr
  | loadProgram rom =>
    obtain ⟨mem, hm⟩ := m.exists_machine_loadProgram rom
    show (m.loadProgram rom).machine.state.stack = _
    rw [hm]
  | _ => rfl

/-- The lower part of the pending calls persists, unless their number falls below its own. -/
theorem suffix_perform (hr : a ≠ .reset) (h : rest <:+ m.state.stack)
    (hlen : rest.length ≤ (a.perform m).machine.state.stack.length) :
    rest <:+ (a.perform m).machine.state.stack := by
  by_cases ht : a = .tick
  · subst ht
    cases rest with
    | nil => exact List.nil_suffix
    | cons b rest =>
      rcases m.stack_tick_cases with hsame | ⟨c, hpush⟩ | ⟨c, -, hpop, -⟩
      · exact hsame ▸ h
      · exact (hpush ▸ h.trans (List.suffix_cons c _) :)
      · -- what is taken lies above the lower part, for that is not longer than what is left
        rw [hpop, List.suffix_cons_iff] at h
        rcases h with heq | hsuf
        · have hlt := congrArg List.length heq
          simp only [List.length_cons, perform, Outcome.machine_forget] at hlt hlen
          omega
        · exact hsuf
  · rw [stack_perform_of_not_tick ht hr]
    exact h

theorem suffix_performAll {as : List (Action η)} (hr : .reset ∉ as) (h : rest <:+ m.state.stack)
    (hlen : ∀ bs, bs <+: as → rest.length ≤ (performAll m bs).machine.state.stack.length) :
    rest <:+ (performAll m as).machine.state.stack := by
  induction as generalizing m with
  | nil => exact h
  | cons a as ih =>
    obtain ⟨ha, has⟩ : a ≠ .reset ∧ .reset ∉ as := by
      simpa [eq_comm] using hr
    have hstep : rest <:+ (a.perform m).machine.state.stack := by
      refine suffix_perform ha h ?_
      simpa using hlen [a] (List.cons_prefix_cons.2 ⟨rfl, List.nil_prefix⟩)
    exact ih has hstep fun bs hbs => hlen (a :: bs) (List.cons_prefix_cons.2 ⟨rfl, hbs⟩)

end Action

/-! ### Calls -/

/-- A call that is not refused pushes the address past it and leads to its target. -/
theorem Machine.tick_of_call {η : Type} {m : Machine η} {op : UInt16} (hs : m.status = .ready)
    (hf : m.state.fetch = .ok op) (hg : (group op).val = 0x2)
    (hl : ∀ l, m.config.dialect.stackLimit = some l → m.state.stack.length < l) :
    m.tick.value = .ok .ready ∧ m.tick.machine.state.stack = (m.state.pc + 2) :: m.state.stack ∧
      m.tick.machine.state.pc = (target op).toWord := by
  have hd : Instruction.decode? op = some (.call (target op)) :=
    Instruction.decode?_eq_some_iff.2 ⟨hg, rfl⟩
  have hu : m.upcoming = .ok (.call (target op)) :=
    State.upcoming_of_accepted hf hd (State.callFault?_eq_none_iff.2 hl)
  obtain ⟨⟨r, hr⟩, hv⟩ := tick_of_upcoming_ok hs hu
  rw [hr]
  exact ⟨hv, rfl, rfl⟩

/-- **Calls and returns nest.**  A ready machine that is about to execute a call, with room for one
more, pushes the address past the call and goes to its target.  Whatever happens then short of a
reset, as long as there are more pending calls than before, those from before and that address stay
untouched below all others; and the first tick that leads back to their number executes a return,
leaves just the calls from before, and goes to the address past the call.  That is two further on,
except that a call in the last two bytes of memory is followed by address zero. -/
theorem call_ret_nest {η : Type} (m : Machine η) (op : UInt16) (hs : m.status = .ready)
    (hf : m.state.fetch = .ok op) (hg : (group op).val = 0x2)
    (hl : ∀ l, m.config.dialect.stackLimit = some l → m.state.stack.length < l) :
    m.tick.value = .ok .ready ∧
      m.tick.machine.state.stack = (m.state.pc + 2) :: m.state.stack ∧
      (m.state.pc + 2).toNat = m.state.pc.toNat + 2 ∧
      m.tick.machine.state.pc.toNat = op.toNat % 4096 ∧
      ((m.state.pc.toNat + 2) % 4096 =
        if m.state.pc = 0xFFE then 0 else m.state.pc.toNat + 2) ∧
      ∀ as : List (Action η), .reset ∉ as →
        (∀ bs, bs <+: as → m.state.stack.length + 1 ≤
          (Action.performAll m.tick.machine bs).machine.state.stack.length) →
        let n := (Action.performAll m.tick.machine as).machine
        (m.state.pc + 2) :: m.state.stack <:+ n.state.stack ∧
          (n.tick.machine.state.stack.length ≤ m.state.stack.length →
            n.executed? = some 0x00EE ∧ n.tick.machine.state.stack = m.state.stack ∧
              n.tick.machine.state.pc.toNat = (m.state.pc.toNat + 2) % 4096) := by
  have hpc : m.state.pc ≤ 0xFFE := State.pc_le_of_fetch hf
  have hnat : m.state.pc.toNat ≤ 0xFFE := UInt16.le_iff_toNat_le.1 hpc
  have htwo := State.toNat_pc_add_two (UInt16.le_trans hpc (by decide))
  obtain ⟨hv, hstack, htarget⟩ := Machine.tick_of_call hs hf hg hl
  refine ⟨hv, hstack, htwo, ?_, ?_, fun as hr hlen => ?_⟩
  · rw [htarget]
    exact Address.toNat_toWord_ofWord op
  · by_cases hlast : m.state.pc = 0xFFE
    · rw [if_pos hlast, hlast]; rfl
    · have hne : m.state.pc.toNat ≠ 0xFFE := fun h => hlast (UInt16.toNat_inj.1 h)
      rw [if_neg hlast]
      omega
  · have hsuf : (m.state.pc + 2) :: m.state.stack <:+
        (Action.performAll m.tick.machine as).machine.state.stack :=
      Action.suffix_performAll hr (hstack ▸ List.suffix_refl _) hlen
    refine ⟨hsuf, fun hback => ?_⟩
    obtain ⟨hx, hst, hp⟩ := Machine.tick_of_suffix hsuf hback
    refine ⟨hx, hst, ?_⟩
    rw [hp, Address.toNat_toWord_ofWord, htwo]

/-- A machine about to execute a call of `0x200` in the last two bytes of memory; at `0x200` stands
a call of `0x204`, followed by two returns. -/
def lastCall : Machine Unit :=
  { Machine.create {} ChaCha.zeroKey (fun _ _ => false) () with
    state := { State.initial with
      pc := 0xFFE
      memory :=
        (Memory.zero.store 0xFFE [0x22, 0x00]).store 0x200 [0x22, 0x04, 0x00, 0xEE, 0x00, 0xEE] } }

/-- A call and a return from it, with a change of the host between them. -/
def nestedCall : List (Action Unit) := [.tick, .updateHost fun h => { host := h }, .tick]

/-- After a nested call the outer return leads to address zero. -/
theorem call_ret_nest_at_end :
    lastCall.status = .ready ∧ lastCall.state.fetch = .ok 0x2200 ∧
      (lastCall.tick.machine.state.stack = [0x1000] ∧ lastCall.tick.machine.state.pc = 0x200) ∧
      let n := (Action.performAll lastCall.tick.machine nestedCall).machine
      [0x1000] <:+ n.state.stack ∧ n.executed? = some 0x00EE ∧ n.tick.machine.state.stack = [] ∧
        n.tick.machine.state.pc = 0 := by
  obtain ⟨hf, hdepth, hback⟩ : lastCall.state.fetch = .ok 0x2200 ∧
      (∀ k < 4, 1 ≤ (Action.performAll lastCall.tick.machine
        (nestedCall.take k)).machine.state.stack.length) ∧
      (Action.performAll lastCall.tick.machine
        nestedCall).machine.tick.machine.state.stack.length ≤ 0 := by
    decide +kernel
  have hl : ∀ l, lastCall.config.dialect.stackLimit = some l → lastCall.state.stack.length < l := by
    intro l hl
    cases hl
    decide
  have hr : .reset ∉ nestedCall := by simp [nestedCall]
  obtain ⟨-, hstack, -, hpc, -, hnest⟩ := call_ret_nest lastCall 0x2200 rfl hf rfl hl
  obtain ⟨hsuf, hret⟩ := hnest nestedCall hr fun bs hbs => by
    rw [List.prefix_iff_eq_take.1 hbs]
    exact hdepth _ (Nat.lt_succ_of_le hbs.length_le)
  obtain ⟨hx, hst, hp⟩ := hret hback
  exact ⟨rfl, hf, ⟨hstack, UInt16.toNat_inj.1 hpc⟩, hsuf, hx, hst, UInt16.toNat_inj.1 hp⟩

end ChipEight
