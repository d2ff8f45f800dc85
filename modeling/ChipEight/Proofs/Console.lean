import ChipEight.CommandLine.Session
import ChipEight.Proofs.Buzzer
import ChipEight.Proofs.Replies
import ChipEight.Proofs.Surroundings
import ChipEight.Proofs.Unstopped

/-!
# The console from tick to tick

A machine of a session has the console for its host.  Its display adds each picture to standard
output, its bell adds at most one character to standard error, neither requests a stop, and the keys
held down remain so.

* `Machine.picture?`, `Machine.pictures`: the pictures that ticks show;
* `Writer.stream`, `Bell.rung`: what display and bell have written;
* `Machine.AtConsole`: a machine of a session between two ticks;
* `Machine.AtConsole.afterTicks`: what ticks make of its console;
* `Machine.SameConsole`: two machines whose consoles may differ in standard output.
-/

namespace ChipEight

open Opcode

/-! ### Pictures and bells -/

namespace Machine

variable {η : Type}

/-- The picture that the next tick shows, if its word clears the picture or draws on it. -/
def picture? (m : Machine η) : Option Frame :=
  if m.executed?.any draws then some m.tick.machine.state.frame else none

/-- The pictures that the next `k` ticks show. -/
def pictures (m : Machine η) (k : ℕ) : List Frame :=
  (List.range k).filterMap fun j => (m.afterTicks j).picture?

theorem pictures_succ (m : Machine η) (k : ℕ) :
    m.pictures (k + 1) = m.pictures k ++ (m.afterTicks k).picture?.toList := by
  rw [pictures, List.range_succ, List.filterMap_append]
  cases h : (m.afterTicks k).picture? <;> simp [pictures, h]

end Machine

namespace Writer

/-- What a terminal display writes for some pictures: for each, the sequence that moves the cursor
home and the text of the picture. -/
def stream : List Frame → ByteArray
  | [] => .empty
  | f :: fs => (homeSequence ++ f.text).toUTF8 ++ stream fs

theorem stream_append (fs gs : List Frame) : stream (fs ++ gs) = stream fs ++ stream gs := by
  induction fs with
  | nil => exact ByteArray.empty_append.symm
  | cons f fs ih => rw [List.cons_append, stream, stream, ih, ByteArray.append_assoc]

/-- A writer with room takes a picture as a whole. -/
theorem present_of_room {w : Writer} (h : w.room = none) (f : Frame) :
    (w.present f).1 = { w with accepted := w.accepted ++ stream [f] } := by
  obtain ⟨accepted, room, refuses⟩ := w
  obtain rfl : room = none := h
  rw [stream, stream, ByteArray.append_empty]
  rfl

end Writer

/-- What the bell has written when it has rung `k` times. -/
def Bell.rung (k : ℕ) : String := String.ofList (List.replicate k Bell.character)

theorem Bell.push_rung (k : ℕ) : (rung k).push character = rung (k + 1) := by
  rw [← String.toList_inj, String.toList_push, rung, rung, String.toList_ofList,
    String.toList_ofList, ← List.replicate_succ']

/-! ### Machines at a console -/

namespace Machine

/-- A machine of a session between two ticks. -/
structure AtConsole (m : Machine Console) : Prop where
  displays : m.displays = [] ∨ m.displays = [Console.display]
  buzzer : m.buzzer = some Console.bell
  keys : m.keys = Console.keys
  calm : m.stopRequested = false
  room : m.host.stdout.room = none
  flushes : m.host.stdout.refusesFlush = false

/-- A tick that executes no word leaves the host alone. -/
theorem host_tick_of_not_executed {η : Type} {m : Machine η} (hx : m.executed? = none) :
    m.tick.machine.host = m.host := by
  obtain ⟨st, hm⟩ := machine_tick_of_not_executed hx
  rw [hm]

namespace AtConsole

variable {m : Machine Console} {op : UInt16}

/-- Neither the display nor the bell requests a stop. -/
theorem stop_reply (h : m.AtConsole) {c : Console} {e : Event} {r : Reply Console}
    (hr : m.reply? c e = some r) : r.stop = false := by
  cases e with
  | log record => cases hr
  | shown k f =>
    rcases h.displays with hd | hd
    · simp [reply?, hd] at hr
    · obtain ⟨d, hk, rfl⟩ : ∃ d, [Console.display][k]? = some d ∧ d f c = r := by
        simpa [reply?, hd] using hr
      rw [List.mem_singleton.1 (List.mem_of_getElem? hk)]
      rfl
  | buzzed on =>
    obtain rfl : Console.bell on c = r := by simpa [reply?, h.buzzer] using hr
    rfl

theorem stop_replies (h : m.AtConsole) (c : Console) (es : List Event) :
    (m.replies c es).any Reply.stop = false := by
  induction es generalizing c with
  | nil => rfl
  | cons e es ih =>
    cases hr : m.reply? c e with
    | none => rw [replies_cons_of_none hr, ih]
    | some r => rw [replies_cons_of_some hr, List.any_cons, h.stop_reply hr, ih, Bool.or_false]

/-- What a tick that executes a word makes of the console. -/
theorem host_tick (h : m.AtConsole) (hx : m.executed? = some op) :
    m.tick.machine.host =
      { keypad := m.host.keypad
        stdout :=
          if draws op = true ∧ m.displays ≠ [] then
            (m.host.stdout.present m.tick.machine.state.frame).1
          else m.host.stdout
        stderr :=
          if Bell.rings m.host.sounding (decide (0 < m.tick.machine.state.soundTimer)) then
            m.host.stderr.push Bell.character
          else m.host.stderr
        sounding := decide (0 < m.tick.machine.state.soundTimer) } := by
  rw [host_tick_of_executed hx h.buzzer]
  rcases h.displays with hd | hd
  · by_cases hdraws : draws op = true <;> simp [hd, hdraws, Console.bell]
  · by_cases hdraws : draws op = true <;>
      simp [hd, hdraws, Console.bell, Console.display, Display.toWriter]

theorem tick (h : m.AtConsole) : m.tick.machine.AtConsole where
  displays := by rw [m.builtAlike_tick.displays]; exact h.displays
  buzzer := by rw [m.builtAlike_tick.buzzer]; exact h.buzzer
  keys := by rw [m.builtAlike_tick.keys]; exact h.keys
  calm := by rw [m.heard_tick.stop, h.calm, h.stop_replies, Bool.or_false]
  room := by
    cases hx : m.executed? with
    | none => rw [host_tick_of_not_executed hx]; exact h.room
    | some op =>
      rw [h.host_tick hx]
      show (if _ then _ else _ : Writer).room = none
      split
      · rw [Writer.present_of_room h.room]; exact h.room
      · exact h.room
  flushes := by
    cases hx : m.executed? with
    | none => rw [host_tick_of_not_executed hx]; exact h.flushes
    | some op =>
      rw [h.host_tick hx]
      show (if _ then _ else _ : Writer).refusesFlush = false
      split
      · rw [Writer.present_of_room h.room]; exact h.flushes
      · exact h.flushes

/-- The keys held down remain so. -/
theorem keypad_tick (h : m.AtConsole) : m.tick.machine.host.keypad = m.host.keypad := by
  cases hx : m.executed? with
  | none => rw [host_tick_of_not_executed hx]
  | some op => rw [h.host_tick hx]

/-- With a display, a tick writes its picture to standard output. -/
theorem accepted_tick (h : m.AtConsole) :
    m.tick.machine.host.stdout.accepted =
      m.host.stdout.accepted ++
        Writer.stream (if m.displays = [] then [] else m.picture?.toList) := by
  cases hx : m.executed? with
  | none =>
    rw [host_tick_of_not_executed hx, picture?, hx]
    simp [Writer.stream]
  | some op =>
    rw [h.host_tick hx, picture?, hx]
    by_cases hdraws : draws op = true
    · by_cases hd : m.displays = []
      · simp [hdraws, hd, Writer.stream]
      · simp [hdraws, hd, Writer.present_of_room h.room]
    · simp [hdraws, Writer.stream]

/-- What ticks make of a machine at a console. -/
theorem afterTicks (h : m.AtConsole) (k : ℕ) : (m.afterTicks k).AtConsole := by
  induction k with
  | zero => exact h
  | succ k ih => rw [m.afterTicks_succ]; exact ih.tick

theorem unstopped (h : m.AtConsole) : m.Unstopped := fun k => (h.afterTicks k).calm

/-- With a display, ticks write their pictures to standard output. -/
theorem accepted_afterTicks (h : m.AtConsole) (k : ℕ) :
    (m.afterTicks k).host.stdout.accepted =
      m.host.stdout.accepted ++ Writer.stream (if m.displays = [] then [] else m.pictures k) := by
  induction k with
  | zero => simp [Machine.afterTicks, pictures, Writer.stream]
  | succ k ih =>
    rw [m.afterTicks_succ, (h.afterTicks k).accepted_tick, ih,
      (m.builtAlike_afterTicks k).displays, pictures_succ]
    by_cases hd : m.displays = []
    · simp [hd, Writer.stream]
    · simp only [hd, if_false, Writer.stream_append, ByteArray.append_assoc]

end AtConsole

/-! ### Two consoles -/

/-- Two machines that are the same inside, and whose consoles are the same but for what has been
written to standard output. -/
structure SameConsole (m n : Machine Console) : Prop where
  twins : m.Twins n
  dialect : n.config.dialect = m.config.dialect
  keypad : n.host.keypad = m.host.keypad
  stderr : n.host.stderr = m.host.stderr
  sounding : n.host.sounding = m.host.sounding

namespace SameConsole

variable {m n : Machine Console}

/-- As long as random words are the same or masked out, a tick does not tell the machines apart. -/
theorem tick (h : m.SameConsole n) (hm : m.AtConsole) (hn : n.AtConsole)
    (hword : ∀ op ∈ m.executed?, takesWord op = true → byte op = 0 ∨ n.random = m.random) :
    m.tick.machine.SameConsole n.tick.machine := by
  have hkeys : n.surroundings.keys = m.surroundings.keys := by
    show n.keys n.host = m.keys m.host
    rw [hm.keys, hn.keys, Console.keys, Console.keys, h.keypad]
  have htwins : m.tick.machine.Twins n.tick.machine :=
    h.twins.tick (findsSame_of_answers h.dialect fun op hop =>
      ⟨fun _ => by rw [hkeys], hword op hop⟩)
  have hstreams : n.tick.machine.host.stderr = m.tick.machine.host.stderr ∧
      n.tick.machine.host.sounding = m.tick.machine.host.sounding := by
    cases hx : m.executed? with
    | none =>
      rw [host_tick_of_not_executed hx, host_tick_of_not_executed (h.twins.executed?_eq.trans hx)]
      exact ⟨h.stderr, h.sounding⟩
    | some op =>
      rw [hm.host_tick hx, hn.host_tick (h.twins.executed?_eq.trans hx), htwins.state, h.stderr,
        h.sounding]
      exact ⟨rfl, rfl⟩
  exact {
    twins := htwins
    dialect := by rw [m.builtAlike_tick.config, n.builtAlike_tick.config, h.dialect]
    keypad := by rw [hm.keypad_tick, hn.keypad_tick, h.keypad]
    stderr := hstreams.1
    sounding := hstreams.2 }

/-- Nor do ticks in a row. -/
theorem afterTicks (h : m.SameConsole n) (hm : m.AtConsole) (hn : n.AtConsole) (k : ℕ)
    (hword : n.random = m.random ∨
      ∀ j < k, ∀ op ∈ (m.afterTicks j).executed?, takesWord op = true → byte op = 0) :
    (m.afterTicks k).SameConsole (n.afterTicks k) := by
  -- random words that are the same at first remain so, which the induction has to know
  suffices hboth : (m.afterTicks k).SameConsole (n.afterTicks k) ∧
      (n.random = m.random → (n.afterTicks k).random = (m.afterTicks k).random) from hboth.1
  induction k with
  | zero => exact ⟨h, id⟩
  | succ k ih =>
    obtain ⟨hsame, hrandom⟩ :=
      ih (hword.imp_right fun hblind j hj => hblind j (Nat.lt_succ_of_lt hj))
    rw [m.afterTicks_succ, n.afterTicks_succ]
    refine ⟨hsame.tick (hm.afterTicks k) (hn.afterTicks k) fun op hop ht => ?_,
      fun heq => hsame.twins.random_tick (hrandom heq)⟩
    rcases hword with heq | hblind
    · exact .inr (hrandom heq)
    · exact .inl (hblind k k.lt_succ_self op hop ht)

end SameConsole

end Machine

end ChipEight
