import ChipEight.Proofs.Bystanders
import ChipEight.Proofs.Subscribers
import ChipEight.Proofs.TerminalRoom
import Mathlib.Logic.Function.Basic

/-!
# Terminals that fail

A terminal display whose writer fails keeps what found room, reports the failure and goes on: the
machine to which it belongs does not notice it, nor do other displays.

* `Display.terminal`: terminals, each with a writer of its own beside the host;
* `failing_terminals_unnoticed`: the main result.
-/

namespace ChipEight

variable {η τ ι : Type}

/-- A terminal display whose writer is kept beside the host. -/
def Display.terminal (get : τ → Writer) (put : Writer → τ → τ) : Display (η × τ) :=
  .toWriter (fun h => get h.2) fun w h => (h.1, put w h.2)

/-- A terminal touches only what is beside the host, whatever its writer does. -/
theorem Display.aside_terminal (get : τ → Writer) (put : Writer → τ → τ) :
    (terminal get put : Display (η × τ)).Aside :=
  fun _ _ => ⟨rfl, rfl⟩

/-- A terminal writes if what is put back as its writer is found there. -/
theorem Display.writes_terminal {get : τ → Writer} {put : Writer → τ → τ}
    (h : ∀ w t, get (put w t) = w) : (terminal get put : Display (η × τ)).Writes fun g => get g.2 :=
  fun _ _ => congrArg (·, _) (h _ _)

/-- A command to the host leaves alone what is beside it. -/
theorem Command.spares_beside (c : Command η) (get : τ → Writer) :
    (c.beside : Command (η × τ)).Spares fun g => get g.2 := by
  cases c with
  | addDisplay d => exact fun _ _ => rfl
  | setBuzzer b => exact fun _ _ => rfl
  | updateHost change => exact fun _ => rfl
  | _ => trivial

/-- So do commands and additions of terminals among them, if these have other writers. -/
theorem Command.spares_among {get : ι → τ → Writer} {put : ι → Writer → τ → τ} {i : ι}
    (h : ∀ j, j ≠ i → ∀ w t, get i (put j w t) = get i t) {cs : List (Command η ⊕ ι)}
    (hi : .inr i ∉ cs) :
    ∀ c ∈ cs.map (Command.among fun i => Display.terminal (get i) (put i)),
      c.Spares fun g => get i g.2 := by
  intro c hc
  obtain ⟨a, ha, rfl⟩ := List.mem_map.1 hc
  cases a with
  | inl c => exact c.spares_beside (get i)
  | inr j => exact fun _ _ => h j (fun hj => hi (hj ▸ ha)) _ _

/-- A machine without displays and without a buzzer keeps any writer. -/
theorem Machine.keeps_create (config : Config) (entropy : ChaCha.Key) (keys : η → UInt8 → Bool)
    (host : η) (get : η → Writer) (k : ℕ) :
    (Machine.create config entropy keys host).Keeps get k where
  picture hr := by cases hr
  other {_ e _} hr _ := by cases e <;> cases hr

/-- A machine at power on, with writers beside its host. -/
theorem Machine.beside_create (config : Config) (entropy : ChaCha.Key) (keys : η → UInt8 → Bool)
    (host : η) (writers : τ) :
    (Machine.create config entropy keys host).Beside
      (Machine.create config entropy (fun h => keys h.1) (host, writers)) where
  config := rfl
  state := rfl
  status := rfl
  random := rfl
  stop := rfl
  host := rfl
  keys _ := rfl
  displays := .nil
  buzzer := rfl

/-- Commands that come to an end on the one machine do so on the other. -/
theorem isSome_of_rel {α β : Type} {r : α → β → Prop} {x : Option α} {y : Option β}
    (h : Option.Rel r x y) : y.isSome = x.isSome := by
  cases h <;> rfl

theorem map_value_of_rel {α : Type} {x : Option (Outcome η α)} {y : Option (Outcome (η × τ) α)}
    (h : Option.Rel Outcome.Beside x y) : y.map Outcome.value = x.map Outcome.value := by
  cases h with
  | some h => exact congrArg some h.value
  | none => rfl

/-- **Failing terminals are not noticed.**  The escape sequence and the text of a picture may be
written one after the other.  A writer with room for `R` bytes, given any pictures, takes the first
`min R total` of the bytes that a writer with room for everything would have taken.  With each
picture it reports that no room was left for its end, if the pictures up to this one take more than
`R` bytes, each 2083 and two more for every lit pixel; otherwise that the flush was refused, if it
was; and otherwise nothing.  In a machine to which any number of terminals are added at any time,
their writers being kept beside the host in whatever way, commands come to an end if they do without
the terminals, and leave the same state, status and random source, the same request to stop and the
same host; the buzzer is told the same, and each command returns the same.  Every redraw is shown on
all displays in order, those behind a terminal included.  A terminal that is added once, and whose
writer is not that of another, leaves there what this makes of the pictures that the terminal is
shown, each of them being followed at once by what the writer reports about it. -/
theorem failing_terminals_unnoticed :
    (∀ (w : Writer) (f : Frame),
      w.writeAll [Writer.homeSequence.toUTF8, f.text.toUTF8] =
        w.write (Writer.homeSequence ++ f.text).toUTF8) ∧
      (∀ (R : ℕ) (qs : List (Frame × Bool)),
        let limited := ({ room := some R } : Writer).presentEach qs
        let total := (({} : Writer).presentAll (qs.map Prod.fst)).1.accepted
        let bytes (j : ℕ) := ((qs.take j).map fun q => 2083 + 2 * q.1.litCount).sum
        limited.1.accepted = total.extract 0 (min R total.size) ∧
          limited.1.accepted.size = min R total.size ∧
          limited.2.length = qs.length ∧
          ∀ j q, qs[j]? = some q → limited.2[j]? = some (.rendering ::
            if R < bytes (j + 1) then [.renderFailed "closed"]
            else if q.2 then [.renderFailed "flush refused"] else [])) ∧
      ∀ (config : Config) (entropy : ChaCha.Key) (keys : η → UInt8 → Bool) (host : η) (writers : τ)
        (get : ι → τ → Writer) (put : ι → Writer → τ → τ) (cs : List (Command η ⊕ ι)),
        let m := Machine.create config entropy (fun h => keys h.1) (host, writers)
        let join := Command.among fun i => Display.terminal (get i) (put i)
        let ds := cs.map join
        let alone := Command.performAll? (Machine.create config entropy keys host)
          (cs.filterMap Sum.getLeft?)
        let among := Command.performAll? m ds
        among.isSome = alone.isSome ∧
          (∀ o p, alone = some o → among = some p →
            p.machine.state = o.machine.state ∧ p.machine.status = o.machine.status ∧
              p.machine.random = o.machine.random ∧
              p.machine.stopRequested = o.machine.stopRequested ∧
              p.machine.host.1 = o.machine.host ∧ p.buzzes = o.buzzes ∧
              p.shows = (Command.allRedraws m ds).flatMap Redraw.shows ∧
              ∀ c : Command η, (c.beside.perform? p.machine).map Outcome.value =
                (c.perform? o.machine).map Outcome.value) ∧
          ∀ i before after q p, cs = before ++ .inr i :: after → .inr i ∉ before ++ after →
            (∀ w t, get i (put i w t) = w) → (∀ j, j ≠ i → ∀ w t, get i (put j w t) = get i t) →
            Command.performAll? m (before.map join) = some q → among = some p →
            let k := q.machine.displays.length
            let w := get i writers
            let left := w.presentEach ((p.shownTo k).map fun f => (f, w.refusesFlush))
            get i p.machine.host.2 = left.1 ∧
              Event.Answered k p.events.toList ((p.shownTo k).zip left.2) := by
  refine ⟨fun w f => ?_, fun R qs => ?_, ?_⟩
  · rw [Writer.writeAll_pair]
    exact congrArg w.write String.toByteArray_append.symm
  · intro limited total bytes
    have htotal : total = Writer.stream (qs.map Prod.fst) := Writer.accepted_presentAll _
    have haccepted : limited.1.accepted = total.extract 0 R := by
      show (({ room := some R } : Writer).presentEach qs).1.accepted = _
      rw [← Writer.limited_empty, Writer.accepted_presentEach, htotal, ByteArray.empty_append]
    refine ⟨?_, ?_, Writer.length_logs_presentEach _ qs, fun j q hq => ?_⟩
    · rw [haccepted, Writer.extract_min_size]
    · rw [haccepted, ByteArray.size_extract, Nat.sub_zero]
    · show (({ room := some R } : Writer).presentEach qs).2[j]? = _
      rw [← Writer.limited_empty, Writer.getElem?_logs_presentEach, hq, Option.map_some,
        ByteArray.empty_append, Writer.size_stream, List.map_map]
      rfl
  · intro config entropy keys host writers get put cs m join ds alone among
    have hrel : Option.Rel Outcome.Beside alone among :=
      (Machine.beside_create config entropy keys host writers).performAll?
        (fun i => Display.aside_terminal (get i) (put i)) cs
    refine ⟨isSome_of_rel hrel, fun o p ho hp => ?_, ?_⟩
    · rw [ho, hp] at hrel
      cases hrel with
      | some h =>
        exact ⟨h.machine.state, h.machine.status, h.machine.random, h.machine.stop,
          h.machine.host, h.buzzes, Command.shows_of_performAll? hp,
          fun c => map_value_of_rel (h.machine.perform? c)⟩
    · intro i before after q p hcs hi hput hothers hq hp k w left
      obtain ⟨hbefore, hafter⟩ := not_or.1 (List.mem_append.not.1 hi)
      have hwhole : ds = before.map join ++ .addDisplay (Display.terminal (get i) (put i)) ::
          after.map join := by
        show cs.map join = _
        rw [hcs, List.map_append]
        rfl
      have hend : Command.performAll? m ds = some p := hp
      rw [hwhole] at hend
      have hwritten := Command.written_performAll?
        (Machine.keeps_create _ _ _ _ (fun g => get i g.2) _) (Display.writes_terminal hput)
        (Command.spares_among hothers hbefore) (Command.spares_among hothers hafter) hq hend
      have hleft : left = w.presentAll (p.shownTo k) := w.presentEach_map_refusesFlush _
      rw [hleft]
      exact ⟨hwritten.writer, hwritten.answered⟩

/-- A display that counts the pictures it is shown. -/
def countingDisplay : Display ℕ := fun _ h => { host := h + 1 }

/-- A terminal, a display that counts, another terminal, and a program that clears the picture. -/
def terminalsAround : List (Command ℕ ⊕ ℕ) :=
  [.inr 0, .inl (.addDisplay countingDisplay), .inr 1, .inl (.loadProgram [0x00, 0xE0]), .inl .tick]

/-- With room for a dark picture to the byte, the first of two is written as a whole, the only
report being that the flush was refused, and the second reports that it found no room.  Between two
terminals, one with no room and one with room for three bytes, a display is shown the picture that
the program clears, and the next tick meets the same fault as without them; the second terminal has
taken three bytes of the picture. -/
theorem failing_terminals_unnoticed_between :
    let limited := ({ room := some 2083 } : Writer).presentEach [(.blank, true), (.blank, true)]
    let m := Machine.create {} ChaCha.zeroKey (fun (_ : ℕ × (ℕ → Writer)) _ => false)
      (0, fun i => { room := some (3 * i) })
    limited.2[0]? = some [.rendering, .renderFailed "flush refused"] ∧
      limited.2[1]? = some [.rendering, .renderFailed "closed"] ∧
      ∃ p, Command.performAll? m (terminalsAround.map (Command.among fun i =>
          Display.terminal (fun ws => ws i) fun w ws => Function.update ws i w)) = some p ∧
        p.machine.host.1 = 1 ∧ p.machine.state.pc = 0x202 ∧
        (Command.tick.perform? p.machine).map Outcome.value =
          some (.error (.unrecognizedOpcode 0)) ∧
        (p.machine.host.2 1).accepted.size = 3 := by
  intro limited m
  obtain ⟨-, hroom, hmachine⟩ := @failing_terminals_unnoticed ℕ (ℕ → Writer) ℕ
  obtain ⟨-, -, -, hlogs⟩ := hroom 2083 [(.blank, true), (.blank, true)]
  obtain ⟨-, hsize, -⟩ := hroom 3 [(.blank, false)]
  obtain ⟨o, ho, hhost, hpc, htick⟩ : ∃ o, Command.performAll?
      (Machine.create {} ChaCha.zeroKey (fun (_ : ℕ) _ => false) 0)
        (terminalsAround.filterMap Sum.getLeft?) = some o ∧
        o.machine.host = 1 ∧ o.machine.state.pc = 0x202 ∧
        (Command.tick.perform? o.machine).map Outcome.value =
          some (.error (.unrecognizedOpcode 0)) := by
    refine ⟨_, rfl, ?_⟩
    decide +kernel
  obtain ⟨hend, hsame, hwriter⟩ := hmachine {} ChaCha.zeroKey (fun _ _ => false) 0
    (fun i => { room := some (3 * i) }) (fun i ws => ws i) (fun i w ws => Function.update ws i w)
    terminalsAround
  obtain ⟨p, hp⟩ := Option.isSome_iff_exists.1 (hend.trans (ho ▸ rfl))
  obtain ⟨hstate, -, -, -, hhost', -, hshows, hvalue⟩ := hsame o p ho hp
  have hshown : p.shownTo 2 = [Frame.blank] := by
    rw [Outcome.shownTo, hshows]
    decide +kernel
  have haccepted := (hwriter 1 [.inr 0, .inl (.addDisplay countingDisplay)]
    [.inl (.loadProgram [0x00, 0xE0]), .inl .tick] _ p rfl (by simp) (fun w ws => by simp)
    (fun j hj w ws => Function.update_of_ne hj.symm _ _) rfl hp).1
  refine ⟨(hlogs 0 _ rfl).trans (by decide +kernel), (hlogs 1 _ rfl).trans (by decide +kernel), p,
    hp, hhost'.trans hhost, hstate ▸ hpc, (hvalue .tick).trans htick, ?_⟩
  rw [haccepted]
  show ((Writer.mk .empty (some 3) false).presentEach
    ((p.shownTo 2).map fun f => (f, false))).1.accepted.size = 3
  rw [hshown]
  refine hsize.trans ?_
  rw [Writer.accepted_presentAll, Writer.size_stream]
  decide +kernel

end ChipEight
