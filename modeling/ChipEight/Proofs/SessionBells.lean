import ChipEight.Proofs.Endings

/-!
# One bell for each period of sound

A session begins with a sound timer at rest and a console that has heard nothing, and neither the
lines of an orderly logger nor the line for a fault have a bell in them.  So the bells on standard
error are those that its ticks have rung, one for each time that the sound timer begins to run.

* `Session.tuned_machine`: the console of a session knows whether the sound timer runs;
* `Session.count_toneOn_records`, `Session.count_character_ending`: the bells on standard error;
* `one_bell_per_period`: the main result.
-/

namespace ChipEight

open Opcode

namespace Session

theorem tuned_machine (options : Options) (keypad : Keypad) (rom : List UInt8)
    (entropy : ChaCha.Key) : (machine options keypad rom entropy).Tuned :=
  ⟨atConsole_machine options keypad rom entropy, rfl⟩

/-- A session reports each of the tones that begin in its ticks. -/
theorem count_toneOn_records {options : Options} {keypad : Keypad} {rom : List UInt8}
    (hkeypad : hold Keypad.released options.hold.toList = .ok keypad) (hrom : rom.length ≤ 3584)
    (entropy : ChaCha.Key) (t : ℕ) :
    (records options rom entropy t).count .toneOn =
      Bell.rises false ((machine options keypad rom entropy).tones t) := by
  have hboot := boot_of_hold hkeypad rom entropy
  rw [if_pos hrom] at hboot
  have hloaded : [LogRecord.programLoaded rom.length].count LogRecord.toneOn = 0 := rfl
  have hrun := (atConsole_machine options keypad rom entropy).count_toneOn_records_runFor t
  rw [records, hboot]
  show ([LogRecord.programLoaded rom.length] ++ _ ++ _).count _ = _
  rw [List.count_append, List.count_append, hloaded, hrun, Nat.zero_add]
  split <;> rfl

/-- The bells on standard error are those of the tones that are reported. -/
theorem count_character_ending {l : Logger} (hl : l.Orderly) {rs : List LogRecord}
    (hrs : ∀ r ∈ rs, Text.Printable r.message) (st : Status) (stdout : ByteArray) :
    ∃ code err, ending st stdout (l.transcript 0 rs) = .exited code stdout err ∧
      err.toList.count Bell.character = rs.count .toneOn := by
  have hcount := hl.count_bell_transcript 0 hrs
  cases st with
  | ready => exact ⟨_, _, rfl, hcount⟩
  | exited code => exact ⟨_, _, rfl, hcount⟩
  | faulted e =>
    have hline : Text.Printable ("chip8: " ++ e.message) :=
      Text.printable_append_iff.2 ⟨by decide +kernel, e.printable_message⟩
    have hend : "\n".toList.count Bell.character = 0 := by decide +kernel
    refine ⟨_, _, rfl, ?_⟩
    have hfault : ("chip8: " ++ e.message ++ "\n").toList.count Bell.character = 0 := by
      rw [String.toList_append, List.count_append, hend,
        List.count_eq_zero_of_not_mem hline.bell_notMem]
    rw [String.toList_append, List.count_append, hcount, hfault, Nat.add_zero]

end Session

open Session in
/-- **One bell for each period of sound.**  Whatever the buzzer of a console is told, if no tone was
to be heard before, the bell rings as many times as there are maximal runs of `true`.  So when the
program has come to ticks and ends, with an orderly logger, the bells on standard error are as many
as the executed ticks at whose end the sound timer runs while at the end of the one before it, if
there is one, it did not; and the bell writes nothing but these.  A word that sets the sound timer
rings no bell in its tick if the timer is running when the tick begins, nor if it is set to zero or
one.  If the program does not come to ticks, standard error receives the line for the failure and
nothing from the bell. -/
theorem one_bell_per_period :
    (∀ (c : Console) (bs : List Bool), c.sounding = false →
      (c.hear bs).stderr = c.stderr ++ Bell.rung (Bell.periods bs)) ∧
    ∀ (l : Logger) (words : List String) (options : Options)
      (files : String → Except ReadError (List UInt8)) (entropy : ChaCha.Key),
      Options.parse words = .ok options →
      (∀ f, prepare options (files options.rom) entropy = .error f → ∀ fuel,
        main? l words files entropy fuel = some (.exited 1 .empty (errorLine f))) ∧
      ∀ m, prepare options (files options.rom) entropy = .ok m →
        (l.Orderly → ∀ fuel e, main? l words files entropy fuel = some e →
          let es := Action.executions m (List.replicate (options.maxTicks.getD fuel) .tick)
          ∃ code out err, e = .exited code out err ∧
            err.toList.count Bell.character = (List.range es.length).countP fun j =>
              es[j]?.any (·.after.state.soundTimer ≠ 0) &&
                (j == 0 || es[j - 1]?.any (·.after.state.soundTimer = 0))) ∧
        (∀ k, (m.afterTicks k).host.stderr = Bell.rung (Bell.periods (m.tones k))) ∧
        ∀ k op, (m.afterTicks k).executed? = some op → sets .sound op = true →
          (m.afterTicks k).state.soundTimer ≠ 0 ∨
            ((m.afterTicks k).state.register (x op)).toNat ≤ 1 →
          (m.afterTicks (k + 1)).host.stderr = (m.afterTicks k).host.stderr := by
  refine ⟨fun c bs hc => ?_, fun l words options files entropy hparse =>
    ⟨fun f hf fuel => ?_, fun m hm => ⟨fun hl fuel e he => ?_, fun k => ?_,
      fun k op hx hset hvalue => ?_⟩⟩⟩
  · rw [Console.stderr_hear, hc, Bell.rises_eq_periods]
  · exact main?_of_prepare_error hparse hf l fuel
  · obtain ⟨keypad, rom, hfile, hkeypad, hrom, rfl⟩ := exists_machine_of_prepare hm
    obtain ⟨st, -, rfl⟩ := exists_ending hparse hfile hkeypad he
    obtain ⟨code, err, hend, hcount⟩ := count_character_ending hl
      (printable_records options rom entropy (options.maxTicks.getD fuel)) st _
    refine ⟨code, _, err, hend, ?_⟩
    rw [hcount, count_toneOn_records hkeypad hrom, Machine.tones_eq_map, Execution.rises_map]
  · obtain ⟨keypad, rom, -, -, -, rfl⟩ := exists_machine_of_prepare hm
    have hrung := (atConsole_machine options keypad rom entropy).stderr_afterTicks k
    have hsilent : (machine options keypad rom entropy).host.sounding = false := rfl
    rw [hsilent, Bell.rises_eq_periods] at hrung
    exact hrung.trans String.empty_append
  · obtain ⟨keypad, rom, -, -, -, rfl⟩ := exists_machine_of_prepare hm
    have htuned := (tuned_machine options keypad rom entropy).afterTicks k
    rw [Machine.afterTicks_succ]
    exact htuned.stderr_tick_of_set hx hset hvalue

/-- A program that again and again sets the sound timer to two, twice in a row, and then to zero. -/
def alarmProgram : List UInt8 := [0x6A, 0x02, 0xFA, 0x18, 0xFA, 0x18, 0xFB, 0x18, 0x12, 0x02]

/-- A session of up to nine ticks. -/
def alarmSession : Options := { rom := "game", maxTicks := some 9 }

open Session in
/-- The bell rings in the second tick and in the sixth.  It does not in the third, which finds the
sound timer running, and not in the fourth, which stops it; and it does not if there is no file. -/
theorem one_bell_per_period_alarm :
    let l := Logger.upTo (some .debug)
    let files : String → Except ReadError (List UInt8) := fun _ => .ok alarmProgram
    let missing : ReadError := ⟨"No such file or directory", 2⟩
    (Console.hear {} [true, true, false, false, true]).stderr =
      "" ++ Bell.rung (Bell.periods [true, true, false, false, true]) ∧
    main? l ["game", "--max-ticks", "9"] (fun _ => .error missing) ChaCha.zeroKey 0 =
      some (.exited 1 .empty (errorLine (.unreadable "game" missing))) ∧
    ∃ m code out err, prepare alarmSession (files "game") ChaCha.zeroKey = .ok m ∧
      main? l ["game", "--max-ticks", "9"] files ChaCha.zeroKey 0 = some (.exited code out err) ∧
      err.toList.count Bell.character = 2 ∧
      ∀ k, k = 2 ∨ k = 3 → (m.afterTicks (k + 1)).host.stderr = (m.afterTicks k).host.stderr := by
  intro l files missing
  have hparse : Options.parse ["game", "--max-ticks", "9"] = .ok alarmSession := by rfl
  have hrom : alarmProgram.length ≤ 3584 := by decide
  have hkeypad : hold Keypad.released alarmSession.hold.toList = .ok Keypad.released := rfl
  generalize hm : machine alarmSession Keypad.released alarmProgram ChaCha.zeroKey = m
  have hprepare : prepare alarmSession (files "game") ChaCha.zeroKey = .ok m :=
    hm ▸ (prepare_of_hold hkeypad alarmProgram ChaCha.zeroKey).trans (if_pos hrom)
  have hagain : (m.afterTicks 2).executed? = some 0xFA18 ∧
      (m.afterTicks 2).state.soundTimer = 1 := by
    rw [← hm]
    decide +kernel
  have hoff : (m.afterTicks 3).executed? = some 0xFB18 ∧
      (m.afterTicks 3).state.register (x 0xFB18) = 0 := by
    rw [← hm]
    decide +kernel
  obtain ⟨hhear, hsession⟩ := one_bell_per_period
  obtain ⟨hfails, -⟩ :=
    hsession l _ alarmSession (fun _ => .error missing) ChaCha.zeroKey hparse
  obtain ⟨-, hruns⟩ := hsession l _ alarmSession files ChaCha.zeroKey hparse
  obtain ⟨hbells, -, hsilent⟩ := hruns m hprepare
  obtain ⟨e, he⟩ : ∃ e, main? l ["game", "--max-ticks", "9"] files ChaCha.zeroKey 0 = some e := by
    have hfile : files alarmSession.rom = .ok alarmProgram := rfl
    rw [main?_eq hparse hfile hkeypad, if_pos hrom, if_neg fun hmore => by cases hmore.1]
    exact ⟨_, rfl⟩
  obtain ⟨code, out, err, rfl, hcount⟩ := hbells (Logger.orderly_upTo _) 0 e he
  refine ⟨hhear {} _ rfl, hfails _ rfl 0, m, code, out, err, hprepare, he, hcount.trans ?_, ?_⟩
  · rw [← hm]
    decide +kernel
  · rintro k (rfl | rfl)
    · exact hsilent 2 _ hagain.1 (by decide) (.inl (by rw [hagain.2]; decide))
    · exact hsilent 3 _ hoff.1 (by decide) (.inr (by rw [hoff.2]; decide))

end ChipEight
