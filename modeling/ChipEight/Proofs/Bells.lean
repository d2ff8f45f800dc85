import ChipEight.Proofs.Console
import Mathlib.Data.List.SplitBy

/-!
# Bells

The console remembers what its buzzer was told last and rings the bell when a tone begins.  So it
rings once for each maximal run of answers that the sound timer runs.  What ticks tell the buzzer is
what the executed ones leave of the timer.

* `Bell.rises`, `Bell.periods`, `Bell.rises_eq_periods`: tones that begin, and periods of sound;
* `Console.hear`, `Console.stderr_hear`: the console after the buzzer has been told some answers;
* `Machine.tones`: the answers that ticks give;
* `Machine.AtConsole.stderr_afterTicks`: the bells that ticks ring;
* `Machine.Tuned`, `Machine.Tuned.stderr_tick_of_set`: the console knows whether the sound timer
  runs, and words that set the timer without ringing the bell.
-/

namespace ChipEight

open Opcode

/-! ### Tones that begin -/

namespace Bell

/-- How often a tone begins in the course of some answers; `before` is the answer before them. -/
def rises (before : Bool) : List Bool → ℕ
  | [] => 0
  | on :: bs => (if rings before on then 1 else 0) + rises on bs

/-- The number of maximal runs of `true`. -/
def periods (bs : List Bool) : ℕ := (bs.splitBy (· == ·)).countP (·.contains true)

theorem rises_append (before : Bool) (bs cs : List Bool) :
    rises before (bs ++ cs) = rises before bs + rises (bs.getLastD before) cs := by
  induction bs generalizing before with
  | nil => simp [rises]
  | cons on bs ih => rw [List.cons_append, rises, rises, ih, List.getLastD_cons, Nat.add_assoc]

theorem contains_run {on : Bool} {run : List Bool} (h : ∀ b ∈ run, b = on) :
    (on :: run).reverse.contains true = on := by
  cases on with
  | true => simp
  | false => simpa using fun htrue => Bool.noConfusion (h true htrue)

/-- Each of the runs into which answers are split counts if it consists of `true`; one of them, of
answers `on`, is being collected, and begins with a tone only if it is a run of `true`. -/
theorem countP_splitBy_loop {on : Bool} {run : List Bool} (h : ∀ b ∈ run, b = on) (bs : List Bool)
    (runs : List (List Bool)) :
    (List.splitBy.loop (· == ·) bs on run runs).countP (·.contains true) =
      runs.countP (·.contains true) + ((if on then 1 else 0) + rises on bs) := by
  induction bs generalizing on run runs with
  | nil =>
    rw [List.splitBy.loop, List.countP_reverse, List.countP_cons, contains_run h]
    rfl
  | cons b bs ih =>
    rw [List.splitBy.loop, rises]
    split
    · next heq =>
      obtain rfl : on = b := eq_of_beq heq
      have hrun : ∀ c ∈ on :: run, c = on := List.forall_mem_cons.2 ⟨rfl, h⟩
      have hsteady : rings on on = false := by cases on <;> rfl
      simp only [ih hrun, hsteady, Bool.false_eq_true, if_false, Nat.zero_add]
    · next hne =>
      have hchange : rings on b = b := by
        cases on <;> cases b <;> simp_all [rings]
      rw [ih (by simp), List.countP_cons, contains_run h, hchange, Nat.add_assoc]

theorem rung_add (j k : ℕ) : rung (j + k) = rung j ++ rung k := by
  rw [← String.toList_inj, String.toList_append, rung, rung, rung, String.toList_ofList,
    String.toList_ofList, String.toList_ofList, List.replicate_append_replicate]

/-- A tone begins once in each period of sound. -/
theorem rises_eq_periods (bs : List Bool) : rises false bs = periods bs := by
  cases bs with
  | nil => rfl
  | cons on bs =>
    rw [periods, List.splitBy, countP_splitBy_loop (by simp), rises]
    cases on <;> simp [rings]

/-- A tone begins where an answer is `true` and the one before it is not. -/
theorem rises_eq_countP (before : Bool) (bs : List Bool) :
    rises before bs = (List.range bs.length).countP fun j =>
      bs[j]? == some true && (before :: bs)[j]? == some false := by
  induction bs generalizing before with
  | nil => rfl
  | cons on bs ih =>
    rw [rises, ih, List.length_cons, List.range_succ_eq_map, List.countP_cons, List.countP_map,
      Nat.add_comm]
    cases before <;> cases on <;> rfl

end Bell

namespace Console

/-- The console after its buzzer has been told some answers. -/
def hear (c : Console) (bs : List Bool) : Console := bs.foldl (fun c on => (bell on c).host) c

theorem sounding_hear (c : Console) (bs : List Bool) :
    (c.hear bs).sounding = bs.getLastD c.sounding := by
  induction bs generalizing c with
  | nil => rfl
  | cons on bs ih => rw [List.getLastD_cons]; exact ih (bell on c).host

/-- The bell rings each time a tone begins. -/
theorem stderr_hear (c : Console) (bs : List Bool) :
    (c.hear bs).stderr = c.stderr ++ Bell.rung (Bell.rises c.sounding bs) := by
  induction bs generalizing c with
  | nil => exact String.append_empty.symm
  | cons on bs ih =>
    have hfirst : (bell on c).host.stderr =
        c.stderr ++ Bell.rung (if Bell.rings c.sounding on then 1 else 0) := by
      by_cases hrings : Bell.rings c.sounding on = true
      · rw [if_pos hrings, ← Bell.push_rung]
        exact if_pos hrings
      · rw [if_neg hrings]
        exact (if_neg hrings).trans String.append_empty.symm
    rw [Bell.rises, Bell.rung_add, ← String.append_assoc, ← hfirst]
    exact ih (bell on c).host

end Console

/-! ### Ticks -/

namespace Machine

variable {η : Type} {m : Machine η}

/-- What the next tick tells a buzzer, if it executes a word. -/
def tone? (m : Machine η) : Option Bool :=
  m.executed?.map fun _ => decide (0 < m.tick.machine.state.soundTimer)

/-- What the next `k` ticks tell a buzzer. -/
def tones (m : Machine η) (k : ℕ) : List Bool :=
  (List.range k).filterMap fun j => (m.afterTicks j).tone?

theorem tones_succ (m : Machine η) (k : ℕ) :
    m.tones (k + 1) = m.tones k ++ (m.afterTicks k).tone?.toList := by
  rw [tones, List.range_succ, List.filterMap_append]
  cases h : (m.afterTicks k).tone? <;> simp [tones, h]

theorem tones_eq_map (m : Machine η) (k : ℕ) :
    m.tones k = (Action.executions m (List.replicate k .tick)).map fun e =>
      decide (0 < e.after.state.soundTimer) := by
  rw [tones, Action.executions_ticks, List.map_filterMap]
  refine List.filterMap_congr fun j _ => ?_
  rw [tone?, Option.map_map]
  rfl

/-- Where no tick is executed the sound timer is left alone. -/
theorem tone?_getD (m : Machine η) :
    m.tone?.getD (decide (0 < m.state.soundTimer)) =
      decide (0 < m.tick.machine.state.soundTimer) := by
  cases hx : m.executed? with
  | none =>
    obtain ⟨st, hm⟩ := machine_tick_of_not_executed hx
    rw [tone?, hx, hm]
    rfl
  | some op => rw [tone?, hx]; rfl

end Machine

/-- Tones begin with executions that leave the sound timer running and are the first or follow one
that does not. -/
theorem Execution.rises_map {η : Type} (es : List (Execution η)) :
    Bell.rises false (es.map fun e => decide (0 < e.after.state.soundTimer)) =
      (List.range es.length).countP fun j =>
        es[j]?.any (·.after.state.soundTimer ≠ 0) &&
          (j == 0 || es[j - 1]?.any (·.after.state.soundTimer = 0)) := by
  rw [Bell.rises_eq_countP, List.length_map]
  refine List.countP_congr fun j _ => ?_
  simp only [UInt8.pos_iff_ne_zero, List.getElem?_map]
  cases j with
  | zero => cases hj : es[0]? <;> simp
  | succ j =>
    rw [List.getElem?_cons_succ, List.getElem?_map, Nat.add_sub_cancel]
    cases hj : es[j + 1]? <;> cases hi : es[j]? <;> simp

namespace Machine

namespace AtConsole

variable {m : Machine Console}

/-- A tick that executes a word tells the console whether the sound timer runs. -/
theorem hear_tick (h : m.AtConsole) :
    m.tick.machine.host.stderr = (m.host.hear m.tone?.toList).stderr ∧
      m.tick.machine.host.sounding = (m.host.hear m.tone?.toList).sounding := by
  cases hx : m.executed? with
  | none => rw [host_tick_of_not_executed hx, tone?, hx]; exact ⟨rfl, rfl⟩
  | some op => rw [h.host_tick hx, tone?, hx]; exact ⟨rfl, rfl⟩

theorem stderr_tick (h : m.AtConsole) :
    m.tick.machine.host.stderr =
      m.host.stderr ++ Bell.rung (Bell.rises m.host.sounding m.tone?.toList) := by
  rw [h.hear_tick.1, Console.stderr_hear]

theorem sounding_tick (h : m.AtConsole) :
    m.tick.machine.host.sounding = m.tone?.getD m.host.sounding := by
  rw [h.hear_tick.2, Console.sounding_hear]
  cases m.tone? <;> rfl

theorem sounding_afterTicks (h : m.AtConsole) (k : ℕ) :
    (m.afterTicks k).host.sounding = (m.tones k).getLastD m.host.sounding := by
  induction k with
  | zero => rfl
  | succ k ih =>
    rw [m.afterTicks_succ, (h.afterTicks k).sounding_tick, ih, tones_succ]
    cases (m.afterTicks k).tone? <;> simp

/-- Ticks ring the bell once for each tone that begins. -/
theorem stderr_afterTicks (h : m.AtConsole) (k : ℕ) :
    (m.afterTicks k).host.stderr =
      m.host.stderr ++ Bell.rung (Bell.rises m.host.sounding (m.tones k)) := by
  induction k with
  | zero => exact String.append_empty.symm
  | succ k ih =>
    rw [m.afterTicks_succ, (h.afterTicks k).stderr_tick, ih, h.sounding_afterTicks, tones_succ,
      Bell.rises_append, Bell.rung_add, String.append_assoc]

end AtConsole

/-! ### The sound timer -/

/-- A machine whose console knows whether the sound timer runs. -/
structure Tuned (m : Machine Console) : Prop where
  atConsole : m.AtConsole
  sounding : m.host.sounding = decide (0 < m.state.soundTimer)

namespace Tuned

variable {m : Machine Console} {op : UInt16}

theorem tick (h : m.Tuned) : m.tick.machine.Tuned where
  atConsole := h.atConsole.tick
  sounding := by rw [h.atConsole.sounding_tick, h.sounding, m.tone?_getD]

theorem afterTicks (h : m.Tuned) (k : ℕ) : (m.afterTicks k).Tuned := by
  induction k with
  | zero => exact h
  | succ k ih => rw [m.afterTicks_succ]; exact ih.tick

/-- A tick that finds the sound timer running rings no bell, and neither does one that leaves it
at rest. -/
theorem stderr_tick_of_silent (h : m.Tuned)
    (hsilent : 0 < m.state.soundTimer ∨ ¬ 0 < m.tick.machine.state.soundTimer) :
    m.tick.machine.host.stderr = m.host.stderr := by
  have hrings : Bell.rises m.host.sounding m.tone?.toList = 0 := by
    rw [h.sounding, tone?]
    cases m.executed? with
    | none => rfl
    | some op => rcases hsilent with hs | hs <;> simp [Bell.rises, Bell.rings, hs]
  rw [h.atConsole.stderr_tick, hrings]
  exact String.append_empty

/-- A word that sets the sound timer rings no bell in its tick if the timer runs already or is set
to zero or one. -/
theorem stderr_tick_of_set (h : m.Tuned) (hx : m.executed? = some op)
    (hset : sets .sound op = true)
    (hvalue : m.state.soundTimer ≠ 0 ∨ (m.state.register (x op)).toNat ≤ 1) :
    m.tick.machine.host.stderr = m.host.stderr := by
  refine h.stderr_tick_of_silent (hvalue.imp UInt8.pos_iff_ne_zero.2 fun hle => ?_)
  have htimer := timer_tick_of_executed hx .sound
  rw [if_pos hset] at htimer
  rw [State.soundTimer_pos_iff]
  omega

end Tuned

end Machine

end ChipEight
