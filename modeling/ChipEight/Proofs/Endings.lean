import ChipEight.Proofs.Arguments
import ChipEight.Proofs.Sessions

/-!
# How a session ends

A session whose options are accepted, whose keys are all mapped and whose file is readable fails at
once if the program does not fit, and otherwise runs a ready machine at a console.  If it ends, then
because the machine has exited, because its ticks are used up, or because a tick has faulted.

* `Session.machine`, `Session.boot_of_hold`, `Session.exists_machine_of_prepare`: the machine that a
  session runs;
* `Session.EndsAs`, `Session.ending`: the three ways to end, and what belongs to each;
* `Session.endsAs_status`, `Session.EndsAs.status_eq`: they are told apart by the last status;
* `Session.records`, `Session.printable_records`: what a session reports;
* `Session.main?_eq`, `Session.exists_ending`, `Session.exists_main?`: the whole program;
* `Session.mute_ending`, `Session.mute_main?`: the same program without its display;
* `command_line_outcome`: the main result.
-/

namespace ChipEight

open Opcode

/-! ### The machine of a session -/

namespace Session

/-- Keys that are all mapped can be held down. -/
theorem exists_hold {cs : List Char} (h : ∀ c ∈ cs, Keymap.code? c ≠ none) (p : Keypad) :
    ∃ q, hold p cs = .ok q := by
  induction cs generalizing p with
  | nil => exact ⟨p, rfl⟩
  | cons c cs ih =>
    obtain ⟨k, hk⟩ := Option.ne_none_iff_exists'.1 (h c List.mem_cons_self)
    obtain ⟨q, hq⟩ := ih (fun d hd => h d (List.mem_cons_of_mem _ hd)) (p.press k)
    refine ⟨q, ?_⟩
    rw [hold, hk]
    exact hq

/-- The machine of a session whose program fits. -/
def machine (options : Options) (keypad : Keypad) (rom : List UInt8) (entropy : ChaCha.Key) :
    Machine Console :=
  { Machine.create options.config entropy Console.keys { keypad := keypad } with
    state := { State.initial with memory := State.initial.memory.store Program.start rom }
    displays := if options.headless then [] else [Console.display]
    buzzer := some Console.bell }

theorem atConsole_machine (options : Options) (keypad : Keypad) (rom : List UInt8)
    (entropy : ChaCha.Key) : (machine options keypad rom entropy).AtConsole where
  displays := by
    show (if _ then _ else _ : List (Display Console)) = _ ∨ _
    by_cases h : options.headless = true
    · exact .inl (if_pos h)
    · exact .inr (if_neg h)
  buzzer := rfl
  keys := rfl
  calm := rfl
  room := rfl
  flushes := rfl

/-- The random words of a session that is given a seed. -/
theorem random_machine {options : Options} {seed : UInt64} (h : options.config.seed = some seed)
    (keypad : Keypad) (rom : List UInt8) (entropy : ChaCha.Key) :
    (machine options keypad rom entropy).random = RandomSource.ofSeed seed := by
  have hcreate : (machine options keypad rom entropy).random =
      (Machine.create options.config entropy Console.keys { keypad := keypad }).random := rfl
  rw [hcreate, Machine.random_create_of_seed h]

/-- A session loads its program unless that is too long. -/
theorem boot_of_hold {options : Options} {keypad : Keypad}
    (h : hold Keypad.released options.hold.toList = .ok keypad) (rom : List UInt8)
    (entropy : ChaCha.Key) :
    boot options (.ok rom) entropy =
      if rom.length ≤ 3584 then
        .ok ⟨machine options keypad rom entropy, #[.log (.programLoaded rom.length)], ()⟩
      else .error (.fault (.outOfBounds 4096)) := by
  let m := Machine.create options.config entropy Console.keys { keypad := keypad }
  unfold boot
  rw [h]
  show assemble options keypad rom entropy = _
  by_cases hrom : rom.length ≤ 3584
  · have hfits : Program.start + rom.length ≤ Memory.size := by
      unfold Program.start Memory.size
      omega
    have hwrite : m.state.loadProgram rom = _ := State.write_of_le _ hfits
    rw [if_pos hrom]
    simp only [assemble, Machine.loadProgram, m] at hwrite ⊢
    rw [hwrite]
    unfold machine
    cases options.headless <;> rfl
  · have hlong : Memory.size < Program.start + rom.length := by
      unfold Program.start Memory.size
      omega
    have hwrite : m.state.loadProgram rom = _ := State.write_of_lt _ hlong
    rw [if_neg hrom]
    simp only [assemble, Machine.loadProgram, m] at hwrite ⊢
    rw [hwrite]
    rfl

/-- A session prepares its machine unless the program is too long. -/
theorem prepare_of_hold {options : Options} {keypad : Keypad}
    (h : hold Keypad.released options.hold.toList = .ok keypad) (rom : List UInt8)
    (entropy : ChaCha.Key) :
    prepare options (.ok rom) entropy =
      if rom.length ≤ 3584 then .ok (machine options keypad rom entropy)
      else .error (.fault (.outOfBounds 4096)) := by
  rw [prepare, boot_of_hold h]
  split <;> rfl

/-- A machine that a session prepares is the one that belongs to its keys. -/
theorem exists_machine_of_prepare {options : Options} {contents : Except ReadError (List UInt8)}
    {entropy : ChaCha.Key} {m : Machine Console} (h : prepare options contents entropy = .ok m) :
    ∃ keypad rom, contents = .ok rom ∧ hold Keypad.released options.hold.toList = .ok keypad ∧
      rom.length ≤ 3584 ∧ m = machine options keypad rom entropy := by
  cases hkeypad : hold Keypad.released options.hold.toList with
  | error e =>
    rw [prepare, boot, hkeypad] at h
    cases h
  | ok keypad =>
    cases contents with
    | error e =>
      rw [prepare, boot, hkeypad] at h
      cases h
    | ok rom =>
      rw [prepare_of_hold hkeypad] at h
      split at h
      · next hrom => exact ⟨keypad, rom, rfl, rfl, hrom, (Except.ok.inj h).symm⟩
      · cases h

/-- A session that has loaded its program runs a machine at a console and has reported the load. -/
theorem exists_machine_of_boot {options : Options} {rom : List UInt8} {entropy : ChaCha.Key}
    {o : Outcome Console Unit} (h : boot options (.ok rom) entropy = .ok o) :
    ∃ m : Machine Console, m.AtConsole ∧
      o = ⟨m, #[.log (.programLoaded rom.length)], ()⟩ := by
  cases hkeypad : hold Keypad.released options.hold.toList with
  | error e =>
    rw [boot, hkeypad] at h
    cases h
  | ok keypad =>
    rw [boot_of_hold hkeypad] at h
    split at h
    · exact ⟨_, atConsole_machine options keypad rom entropy, (Except.ok.inj h).symm⟩
    · cases h

/-- The pictures that a session shows in its first `k` ticks, if it comes to ticks. -/
def pictures (options : Options) (rom : List UInt8) (entropy : ChaCha.Key) (k : ℕ) : List Frame :=
  match prepare options (.ok rom) entropy with
  | .error _ => []
  | .ok m => m.pictures k

/-! ### Three ways to end -/

/-- The ways in which a session can end, each with the status that it leaves: a tick within the
budget executed a word `0?1N`; the machine is ready at the end of the budget; the program is too
long, or a tick within the budget faulted. -/
inductive EndsAs (options : Options) (rom : List UInt8) (entropy : ChaCha.Key) : Status → Prop
  | exited {m : Machine Console} {k : ℕ} {op : UInt16}
      (hm : prepare options (.ok rom) entropy = .ok m)
      (hk : ∀ budget, options.maxTicks = some budget → k < budget)
      (hx : (m.afterTicks k).executed? = some op) (hg : (group op).val = 0x0)
      (hy : (y op).val = 0x1) : EndsAs options rom entropy (.exited (n op))
  | ready {m : Machine Console} {budget : ℕ} (hm : prepare options (.ok rom) entropy = .ok m)
      (hbudget : options.maxTicks = some budget) (hs : (m.afterTicks budget).status = .ready) :
      EndsAs options rom entropy .ready
  | refused (h : 3584 < rom.length) : EndsAs options rom entropy (.faulted (.outOfBounds 4096))
  | faulted {m : Machine Console} {k : ℕ} {e : Fault}
      (hm : prepare options (.ok rom) entropy = .ok m)
      (hk : ∀ budget, options.maxTicks = some budget → k < budget)
      (hs : (m.afterTicks k).status = .ready) (he : (m.afterTicks k).tick.value = .error e) :
      EndsAs options rom entropy (.faulted e)

variable {options : Options} {rom : List UInt8} {entropy : ChaCha.Key} {m : Machine Console}
  {st st' : Status} {t : ℕ}

/-- The status of a machine that has halted or used up its ticks is one that the session can end
with. -/
theorem endsAs_status (hm : prepare options (.ok rom) entropy = .ok m) (hready : m.status = .ready)
    (ht : ∀ budget, options.maxTicks = some budget → t = budget)
    (hend : options.maxTicks = some t ∨ (m.afterTicks t).status ≠ .ready) :
    EndsAs options rom entropy (m.afterTicks t).status := by
  by_cases hs : (m.afterTicks t).status = .ready
  · rw [hs]
    exact .ready hm (hend.resolve_right (not_not.2 hs)) hs
  · obtain ⟨k, hk, hkready, hlast⟩ := Machine.exists_last_tick hready hs
    have hkbudget : ∀ budget, options.maxTicks = some budget → k < budget :=
      fun budget hbudget => ht budget hbudget ▸ hk
    rw [hlast, m.afterTicks_succ] at hs ⊢
    cases hstatus : (m.afterTicks k).tick.machine.status with
    | ready => exact absurd hstatus hs
    | exited code =>
      obtain ⟨op, hx, hg, hy, rfl⟩ := (Machine.status_tick_eq_exited_iff hkready).1 hstatus
      exact .exited hm hkbudget hx hg hy
    | faulted e => exact .faulted hm hkbudget hkready (Machine.status_tick_eq_faulted_iff.1 hstatus)

/-- From some tick on, the machine has the status that the session ends with. -/
theorem EndsAs.settled (h : EndsAs options rom entropy st)
    (hm : prepare options (.ok rom) entropy = .ok m) (hrom : rom.length ≤ 3584) :
    ∃ a, (∀ budget, options.maxTicks = some budget → a ≤ budget) ∧
      ∀ b ≥ a, (∀ budget, options.maxTicks = some budget → b ≤ budget) →
        (m.afterTicks b).status = st := by
  cases h with
  | @exited m' k op hm' hk hx hg hy =>
    obtain rfl : m = m' := Except.ok.inj (hm.symm.trans hm')
    have hs : (m.afterTicks k).status = .ready := (Machine.executed?_eq_some_iff.1 hx).1
    have hexit : (m.afterTicks (k + 1)).status = .exited (n op) := by
      rw [m.afterTicks_succ]
      exact (Machine.status_tick_eq_exited_iff hs).2 ⟨op, hx, hg, hy, rfl⟩
    exact ⟨k + 1, hk, fun b hb _ =>
      Machine.status_afterTicks_of_le hexit Status.noConfusion hb⟩
  | @ready m' budget hm' hbudget hs =>
    obtain rfl : m = m' := Except.ok.inj (hm.symm.trans hm')
    refine ⟨budget, fun budget' hbudget' => ?_, fun b hb hle => ?_⟩
    · exact (Option.some.inj (hbudget.symm.trans hbudget')).le
    · rw [Nat.le_antisymm (hle budget hbudget) hb, hs]
  | refused hlong => omega
  | @faulted m' k e hm' hk hs he =>
    obtain rfl : m = m' := Except.ok.inj (hm.symm.trans hm')
    have hfault : (m.afterTicks (k + 1)).status = .faulted e := by
      rw [m.afterTicks_succ]
      exact Machine.status_tick_eq_faulted_iff.2 he
    exact ⟨k + 1, hk, fun b hb _ =>
      Machine.status_afterTicks_of_le hfault Status.noConfusion hb⟩

/-- A session ends in one way at most. -/
theorem EndsAs.status_eq {keypad : Keypad} (h : EndsAs options rom entropy st)
    (h' : EndsAs options rom entropy st')
    (hhold : hold Keypad.released options.hold.toList = .ok keypad) : st' = st := by
  have hprepare := prepare_of_hold hhold rom entropy
  by_cases hrom : rom.length ≤ 3584
  · rw [if_pos hrom] at hprepare
    obtain ⟨a, ha, hst⟩ := h.settled hprepare hrom
    obtain ⟨a', ha', hst'⟩ := h'.settled hprepare hrom
    -- after enough ticks the machine has both statuses
    have hmax : ∀ budget, options.maxTicks = some budget → max a a' ≤ budget :=
      fun budget hbudget => max_le (ha budget hbudget) (ha' budget hbudget)
    rw [← hst _ (le_max_left a a') hmax, ← hst' _ (le_max_right a a') hmax]
  · rw [if_neg hrom] at hprepare
    have hrefused : ∀ {s}, EndsAs options rom entropy s → s = .faulted (.outOfBounds 4096) := by
      intro s hs
      cases hs with
      | refused => rfl
      | exited hm | ready hm | faulted hm =>
        rw [hprepare] at hm
        cases hm
    rw [hrefused h, hrefused h']

/-! ### What a session leaves behind -/

/-- What a session reports if it comes to its run and this is over after at most `t` ticks: the
program that has been loaded, the reports of the run, and the status with which it has ended unless
that is a fault. -/
def records (options : Options) (rom : List UInt8) (entropy : ChaCha.Key) (t : ℕ) :
    List LogRecord :=
  match boot options (.ok rom) entropy with
  | .error _ => []
  | .ok o =>
      let r := o.machine.runFor t
      o.records ++ r.records ++
        match r.value with
        | .ok st => [.finished st]
        | .error _ => []

/-- What belongs to each way to end: the exit code, and after all lines and bells the line for a
fault. -/
def ending (st : Status) (stdout : ByteArray) (stderr : String) : Ending :=
  match st with
  | .ready => .exited 0 stdout stderr
  | .exited code => .exited code.val stdout stderr
  | .faulted e => .exited 1 stdout (stderr ++ ("chip8: " ++ e.message ++ "\n"))

/-- What a session has written to standard output after `t` ticks. -/
theorem accepted_afterTicks_machine (options : Options) (keypad : Keypad) (rom : List UInt8)
    (entropy : ChaCha.Key) (t : ℕ) :
    ((machine options keypad rom entropy).afterTicks t).host.stdout.accepted =
      if options.headless then .empty
      else Writer.stream ((machine options keypad rom entropy).pictures t) := by
  have hempty : (machine options keypad rom entropy).host.stdout.accepted = .empty := rfl
  have hdisplays : (machine options keypad rom entropy).displays =
      if options.headless then [] else [Console.display] := rfl
  rw [(atConsole_machine options keypad rom entropy).accepted_afterTicks, hempty,
    ByteArray.empty_append, hdisplays]
  cases options.headless <;> rfl

variable {l : Logger} {words : List String} {files : String → Except ReadError (List UInt8)}
  {keypad : Keypad}

/-- The whole program, if no machine is prepared. -/
theorem main?_of_prepare_error (hparse : Options.parse words = .ok options) {f : Failure}
    (h : prepare options (files options.rom) entropy = .error f) (l : Logger) (fuel : ℕ) :
    main? l words files entropy fuel = some (abort f) := by
  unfold main?
  rw [hparse]
  rw [prepare] at h
  cases hboot : boot options (files options.rom) entropy with
  | ok o =>
    rw [hboot] at h
    cases h
  | error f' =>
    rw [hboot] at h
    obtain rfl : f' = f := Except.error.inj h
    simp only [hboot]

/-- The whole program, if the arguments are accepted, the file is readable and the keys are held. -/
theorem main?_eq (hparse : Options.parse words = .ok options) (hfile : files options.rom = .ok rom)
    (hkeypad : hold Keypad.released options.hold.toList = .ok keypad) (l : Logger)
    (entropy : ChaCha.Key) (fuel : ℕ) :
    main? l words files entropy fuel =
      if rom.length ≤ 3584 then
        if options.maxTicks = none ∧
            ((machine options keypad rom entropy).afterTicks fuel).status = .ready then none
        else some (((machine options keypad rom entropy).runFor
          (options.maxTicks.getD fuel)).ending l [.programLoaded rom.length])
      else some (abort (.fault (.outOfBounds 4096))) := by
  unfold main?
  rw [hparse]
  simp only [hfile, boot_of_hold hkeypad]
  by_cases hrom : rom.length ≤ 3584
  · have hm := atConsole_machine options keypad rom entropy
    rw [if_pos hrom, if_pos hrom]
    have hrun := runWithin?_start (l := l)
      (o := ⟨machine options keypad rom entropy, #[.log (.programLoaded rom.length)], ()⟩) hm rfl
      (by simp [Outcome.records, Event.record?]) options.maxTicks fuel
    refine hrun.trans ?_
    cases hmax : options.maxTicks with
    | some budget => rfl
    | none =>
      rw [Machine.run?, hm.unstopped.runWithin?_eq rfl]
      simp only [true_and, Option.getD_none]
      split <;> rfl
  · rw [if_neg hrom, if_neg hrom]

/-- What is left when the machine of a session has made `t` ticks. -/
theorem ending_runFor (hkeypad : hold Keypad.released options.hold.toList = .ok keypad)
    (hrom : rom.length ≤ 3584) (l : Logger) (t : ℕ) :
    ((machine options keypad rom entropy).runFor t).ending l [.programLoaded rom.length] =
      ending ((machine options keypad rom entropy).afterTicks t).status
        (if options.headless then .empty
          else Writer.stream ((machine options keypad rom entropy).pictures t))
        (l.transcript 0 (records options rom entropy t)) := by
  have hm := atConsole_machine options keypad rom entropy
  have hboot := boot_of_hold hkeypad rom entropy
  rw [if_pos hrom] at hboot
  rw [← accepted_afterTicks_machine, records, hboot]
  simp only [Outcome.ending, hm.unstopped.machine_runFor rfl, hm.unstopped.value_runFor rfl]
  cases ((machine options keypad rom entropy).afterTicks t).status with
  | ready => rfl
  | exited code => rfl
  | faulted e =>
    simp only [Status.answer, List.append_nil]
    rfl

end Session

/-! ### Reports of a session -/

/-- What an ending has written to standard error. -/
def Ending.stderr : Ending → String
  | .usage _ => ""
  | .exited _ _ stderr => stderr

namespace Session

/-- An orderly logger leaves the line for a fault as the only one that looks like it. -/
theorem errorLines_ending {l : Logger} (hl : l.Orderly) {rs : List LogRecord}
    (hrs : ∀ r ∈ rs, Text.Printable r.message) (st : Status) (stdout : ByteArray) :
    errorLines (ending st stdout (l.transcript 0 rs)).stderr =
      match st with
      | .faulted e => ["chip8: " ++ e.message]
      | _ => [] := by
  have hnone : errorLines (l.transcript 0 rs) = [] := by
    rw [← String.append_empty (s := l.transcript 0 rs), hl.errorLines_transcript 0 hrs,
      errorLines_empty]
  cases st with
  | ready => exact hnone
  | exited code => exact hnone
  | faulted e =>
    exact (hl.errorLines_transcript 0 hrs _).trans
      (errorLines_errorLine (e := .fault e) e.printable_message)

theorem printable_records (options : Options) (rom : List UInt8) (entropy : ChaCha.Key) (t : ℕ) :
    ∀ r ∈ records options rom entropy t, Text.Printable r.message := by
  unfold records
  cases hboot : boot options (.ok rom) entropy with
  | error e => exact List.forall_mem_nil _
  | ok o =>
    obtain ⟨m, hm, rfl⟩ := exists_machine_of_boot hboot
    have hloaded : Text.Printable (LogRecord.programLoaded rom.length).message :=
      LogRecord.printable_message (by simp)
    refine List.forall_mem_append.2
      ⟨List.forall_mem_append.2 ⟨?_, hm.printable_records_runFor t⟩, ?_⟩
    · exact List.forall_mem_singleton.2 hloaded
    · cases (m.runFor t).value with
      | ok st => exact List.forall_mem_singleton.2 (LogRecord.printable_message (by simp))
      | error e => exact List.forall_mem_nil _

end Session

/-- An ending without what was written to standard output. -/
def Ending.mute : Ending → Ending
  | .exited code _ stderr => .exited code .empty stderr
  | e => e

namespace Session

variable {options : Options} {rom : List UInt8} {keypad : Keypad} {words : List String}
  {files : String → Except ReadError (List UInt8)} {entropy : ChaCha.Key} {l : Logger} {t : ℕ}

/-- If the program ends, then in one of the three ways. -/
theorem exists_ending (hparse : Options.parse words = .ok options)
    (hfile : files options.rom = .ok rom)
    (hkeypad : hold Keypad.released options.hold.toList = .ok keypad) {fuel : ℕ} {e : Ending}
    (he : main? l words files entropy fuel = some e) :
    let t := options.maxTicks.getD fuel
    ∃ st, EndsAs options rom entropy st ∧
      e = ending st
        (if options.headless then .empty else Writer.stream (pictures options rom entropy t))
        (l.transcript 0 (records options rom entropy t)) := by
  intro t
  have hprepare := prepare_of_hold hkeypad rom entropy
  rw [main?_eq hparse hfile hkeypad] at he
  unfold pictures
  by_cases hrom : rom.length ≤ 3584
  · rw [if_pos hrom] at he hprepare
    rw [hprepare]
    by_cases hmore : options.maxTicks = none ∧
        ((machine options keypad rom entropy).afterTicks fuel).status = .ready
    · rw [if_pos hmore] at he
      cases he
    · rw [if_neg hmore, ending_runFor hkeypad hrom] at he
      refine ⟨_, endsAs_status hprepare rfl (fun budget hbudget => ?_) ?_,
        (Option.some.inj he).symm⟩
      · rw [hbudget]; rfl
      · cases hmax : options.maxTicks with
        | some budget => exact .inl rfl
        | none => exact .inr fun hs => hmore ⟨hmax, hs⟩
  · have hboot := boot_of_hold hkeypad rom entropy
    rw [if_neg hrom] at he hprepare hboot
    refine ⟨_, .refused (Nat.lt_of_not_le hrom), ?_⟩
    rw [hprepare, records, hboot, ← Option.some.inj he]
    cases options.headless <;> rfl

/-- The program ends if there is a way to end. -/
theorem exists_main? (hparse : Options.parse words = .ok options)
    (hfile : files options.rom = .ok rom)
    (hkeypad : hold Keypad.released options.hold.toList = .ok keypad) (l : Logger) {st : Status}
    (h : EndsAs options rom entropy st) :
    ∃ fuel, (main? l words files entropy fuel).isSome = true := by
  have hprepare := prepare_of_hold hkeypad rom entropy
  by_cases hrom : rom.length ≤ 3584
  · rw [if_pos hrom] at hprepare
    obtain ⟨a, -, hst⟩ := h.settled hprepare hrom
    refine ⟨a, ?_⟩
    rw [main?_eq hparse hfile hkeypad, if_pos hrom]
    refine (congrArg Option.isSome (if_neg ?_)).trans rfl
    rintro ⟨hmax, hready⟩
    rw [hst a le_rfl (by simp [hmax])] at hready
    cases h with
    | ready _ hbudget => simp [hmax] at hbudget
    | _ => cases hready
  · refine ⟨0, ?_⟩
    rw [main?_eq hparse hfile hkeypad, if_neg hrom]
    rfl

/-! ### Sessions without a display -/

/-- Sessions that differ in their displays, and perhaps in random words that are masked out, have
the same console but for standard output. -/
theorem sameConsole_afterTicks (headless : Bool) {keypad : Keypad} (entropy' : ChaCha.Key)
    (hseed : options.config.seed.isSome = true ∨
      ∀ k < t, ∀ op ∈ ((machine options keypad rom entropy).afterTicks k).executed?,
        takesWord op = true → byte op = 0) {j : ℕ} (hj : j ≤ t) :
    ((machine options keypad rom entropy).afterTicks j).SameConsole
      ((machine { options with headless := headless } keypad rom entropy').afterTicks j) := by
  have hstart : (machine options keypad rom entropy).SameConsole
      (machine { options with headless := headless } keypad rom entropy') :=
    ⟨⟨rfl, rfl, rfl⟩, rfl, rfl, rfl, rfl⟩
  refine hstart.afterTicks (atConsole_machine ..) (atConsole_machine ..) j ?_
  refine hseed.imp (fun hsome => ?_) fun hblind k hk => hblind k (hk.trans_le hj)
  obtain ⟨seed, hseed⟩ := Option.isSome_iff_exists.1 hsome
  have hseed' : ({ options with headless := headless } : Options).config.seed = some seed := hseed
  rw [random_machine hseed, random_machine hseed']

/-- Where the consoles are the same, runs end in the same way but for standard output, as far as a
discreet logger tells. -/
theorem mute_ending {m n : Machine Console} (hl : l.Discreet) (hm : m.AtConsole) (hn : n.AtConsole)
    (hmready : m.status = .ready) (hnready : n.status = .ready)
    (hrate : n.config.tickRate = m.config.tickRate)
    (hsame : ∀ j ≤ t, (m.afterTicks j).SameConsole (n.afterTicks j)) (before : List LogRecord) :
    ((n.runFor t).ending l before).mute = ((m.runFor t).ending l before).mute := by
  have hvalue : (n.runFor t).value = (m.runFor t).value := by
    rw [hm.unstopped.value_runFor hmready, hn.unstopped.value_runFor hnready,
      (hsame t le_rfl).twins.status]
  have hrecords := Machine.SameConsole.filter_records_runFor hsame hm hn hrate hvalue
  have htranscript : ∀ rs, l.transcript 0 (before ++ (n.runFor t).records ++ rs) =
      l.transcript 0 (before ++ (m.runFor t).records ++ rs) := by
    intro rs
    refine hl.transcript_eq ?_ 0
    simp only [List.filter_append, hrecords]
  have hfault := htranscript []
  rw [List.append_nil, List.append_nil] at hfault
  unfold Outcome.ending Ending.mute
  rw [hvalue]
  cases (m.runFor t).value with
  | ok st => simp only [htranscript]
  | error e => simp only [hfault]

/-- Whether a session is headless matters to standard output only, as far as a discreet logger
tells. -/
theorem mute_main? {words' : List String} {headless : Bool} {entropy' : ChaCha.Key} {fuel : ℕ}
    (hl : l.Discreet) (hparse : Options.parse words = .ok options)
    (hparse' : Options.parse words' = .ok { options with headless := headless })
    (hfile : files options.rom = .ok rom)
    (hkeypad : hold Keypad.released options.hold.toList = .ok keypad)
    (hseed : options.config.seed.isSome = true ∨
      ∀ m, prepare options (.ok rom) entropy = .ok m → ∀ k < options.maxTicks.getD fuel,
        ∀ op ∈ (m.afterTicks k).executed?, takesWord op = true → byte op = 0) :
    (main? l words' files entropy' fuel).map Ending.mute =
      (main? l words files entropy fuel).map Ending.mute := by
  rw [main?_eq hparse hfile hkeypad, main?_eq hparse' hfile hkeypad]
  by_cases hrom : rom.length ≤ 3584
  · have hprepare := prepare_of_hold hkeypad rom entropy
    rw [if_pos hrom] at hprepare ⊢
    rw [if_pos hrom]
    have hsame := fun {j} => sameConsole_afterTicks (j := j) headless entropy'
      (hseed.imp_right fun hblind => hblind _ hprepare)
    have hend := mute_ending hl (atConsole_machine options keypad rom entropy)
      (atConsole_machine { options with headless := headless } keypad rom entropy') rfl rfl rfl
      (fun _ => hsame) [.programLoaded rom.length]
    by_cases hmax : options.maxTicks = none
    · rw [hmax, Option.getD_none] at hsame hend
      simp only [hmax, (hsame le_rfl).twins.status, true_and, Option.getD_none]
      split
      · rfl
      · exact congrArg some hend
    · simp only [hmax, false_and, if_false]
      exact congrArg some hend
  · rw [if_neg hrom, if_neg hrom]

end Session

open Session in
/-- **How the program ends.**  Let the arguments be accepted, the file be readable and all keys to
hold be mapped.  The words spell arguments that choose the options, and a machine that is prepared
has the tick rate, the dialect and the random words that these ask for.  If the program ends, then
in exactly one of three ways.  A tick within the budget executed a word `0?1N`, and the exit code is
`N`; or the machine is ready at the end of its budget, and the exit code is zero; or the file holds
more than 3584 bytes or a tick within the budget faulted, the exit code is one, and at its end
standard error names the fault.  In front of that it has received what a logger makes of the reports
and the bells, nothing else; so if the logger is orderly, a line that names a fault is there in the
third case only, and once.  Standard output has received every picture, in order, that was cleared
or drawn on, before a fault as well, or nothing if the session is headless or the file too long.
The program ends whenever there is such a way to end.  Whether it is headless makes no other
difference, given the same seed or no random byte, as long as the logger does not report
pictures. -/
theorem command_line_outcome (l : Logger) {words : List String} {options : Options}
    {rom : List UInt8} {files : String → Except ReadError (List UInt8)}
    (hparse : Options.parse words = .ok options) (hfile : files options.rom = .ok rom)
    (hhold : ∀ c ∈ options.hold.toList, Keymap.code? c ≠ none) (entropy : ChaCha.Key) :
    (∃ as, Argument.Spells as words ∧ Argument.Chooses as options) ∧
    (∀ m, prepare options (.ok rom) entropy = .ok m →
      m.config.tickRate = options.tickRate ∧
      m.config.dialect.shiftOperand = (if options.shiftVx then .x else .y) ∧
      m.config.dialect.keySelector = (if options.keyRegister then .register else .digit) ∧
      m.config.dialect.stackLimit =
        (if options.unboundedStack then none else some options.stackLimit) ∧
      m.random = RandomSource.ofKey ((options.seed.map RandomSource.key).getD entropy)) ∧
    (∀ fuel e, main? l words files entropy fuel = some e →
      let t := options.maxTicks.getD fuel
      ∃ st, EndsAs options rom entropy st ∧
        (∀ st', EndsAs options rom entropy st' → st' = st) ∧
        e = ending st
          (if options.headless then .empty else Writer.stream (pictures options rom entropy t))
          (l.transcript 0 (records options rom entropy t)) ∧
        (l.Orderly → errorLines e.stderr = match st with
          | .faulted fault => ["chip8: " ++ fault.message]
          | _ => [])) ∧
    ((∃ st, EndsAs options rom entropy st) ↔
      ∃ fuel, (main? l words files entropy fuel).isSome = true) ∧
    (l.Discreet → ∀ words' headless entropy' fuel,
      Options.parse words' = .ok { options with headless := headless } →
      (options.seed.isSome = true ∨
        ∀ m, prepare options (.ok rom) entropy = .ok m → ∀ k < options.maxTicks.getD fuel,
          ∀ op ∈ (m.afterTicks k).executed?, takesWord op = true → byte op = 0) →
      (main? l words' files entropy' fuel).map Ending.mute =
        (main? l words files entropy fuel).map Ending.mute) := by
  obtain ⟨keypad, hkeypad⟩ := exists_hold hhold Keypad.released
  refine ⟨Options.parse_eq_ok_iff.1 hparse, fun m hm => ?_, fun fuel e he => ?_, ⟨?_, ?_⟩, ?_⟩
  · obtain ⟨keypad, rom, -, -, -, rfl⟩ := exists_machine_of_prepare hm
    exact ⟨rfl, rfl, rfl, rfl, rfl⟩
  · obtain ⟨st, hst, rfl⟩ := exists_ending hparse hfile hkeypad he
    exact ⟨st, hst, fun st' hst' => hst.status_eq hst' hkeypad, rfl,
      fun hl => errorLines_ending hl (printable_records options rom entropy _) st _⟩
  · rintro ⟨st, hst⟩
    exact exists_main? hparse hfile hkeypad l hst
  · rintro ⟨fuel, hsome⟩
    obtain ⟨e, he⟩ := Option.isSome_iff_exists.1 hsome
    obtain ⟨st, hst, -⟩ := exists_ending hparse hfile hkeypad he
    exact ⟨st, hst⟩
  · intro hl words' headless entropy' fuel hparse' hseed
    exact mute_main? hl hparse hparse' hfile hkeypad hseed

/-- A program that clears the picture and then is no program any more. -/
def shortProgram : List UInt8 := [0x00, 0xE0, 0xFF, 0xFF]

/-- A session of up to five ticks. -/
def shortSession : Options :=
  { rom := "game", tickRate := 700, maxTicks := some 5, seed := some 3, shiftVx := true,
    hold := "q" }

open Session in
/-- The picture that was cleared before the fault is written, unless the session is headless.  A
logger that shows errors adds a line of its own in front of the one that names the fault. -/
theorem command_line_outcome_fault :
    let words := ["game", "--tick-rate=700", "--max-ticks", "5", "--seed", "3", "--shift-vx",
      "--hold=q"]
    let files : String → Except ReadError (List UInt8) := fun _ => .ok shortProgram
    let l := Logger.upTo (some .error)
    Options.parse words = .ok shortSession ∧
      Options.parse ("--headless" :: words) = .ok { shortSession with headless := true } ∧
      (∀ c ∈ shortSession.hold.toList, Keymap.code? c ≠ none) ∧
      l.Orderly ∧ l.Discreet ∧
      ∃ e, main? l words files ChaCha.zeroKey 0 = some e ∧
        e = .exited 1 (Writer.stream [Frame.blank])
          ("ERROR Halting at pc 0x0202: unrecognized opcode 0xFFFF\n" ++
            "chip8: unrecognized opcode 0xFFFF\n") ∧
        errorLines e.stderr = ["chip8: unrecognized opcode 0xFFFF"] ∧
        (main? l ("--headless" :: words) files ChaCha.zeroKey 0).map Ending.mute = some e.mute := by
  intro words files l
  have hparse : Options.parse words = .ok shortSession := by rfl
  have hparse' : Options.parse ("--headless" :: words) =
      .ok { shortSession with headless := true } := by rfl
  have hhold : ∀ c ∈ shortSession.hold.toList, Keymap.code? c ≠ none := by
    intro c hc
    obtain rfl : c = 'q' := List.mem_singleton.1 hc
    rw [show Keymap.code? 'q' = some 4 from rfl]
    exact Option.some_ne_none 4
  have hfile : files shortSession.rom = .ok shortProgram := rfl
  have hkeypad : hold Keypad.released shortSession.hold.toList =
      .ok (Keypad.released.press 4) := rfl
  have hrom : shortProgram.length ≤ 3584 := by decide
  have hprepare := (prepare_of_hold hkeypad shortProgram ChaCha.zeroKey).trans (if_pos hrom)
  have hboot := (boot_of_hold hkeypad shortProgram ChaCha.zeroKey).trans (if_pos hrom)
  generalize hm : machine shortSession (Keypad.released.press 4) shortProgram ChaCha.zeroKey = m
    at hprepare hboot
  have hready : (m.afterTicks 1).status = .ready := by
    rw [← hm]
    decide +kernel
  have hstatus : (m.afterTicks 1).tick.machine.status = .faulted (.unrecognizedOpcode 0xFFFF) := by
    rw [← hm]
    decide +kernel
  have hpictures : pictures shortSession shortProgram ChaCha.zeroKey 5 = [Frame.blank] := by
    rw [pictures, hprepare, ← hm]
    decide +kernel
  have hlog : l.transcript 0 (records shortSession shortProgram ChaCha.zeroKey 5) =
      "ERROR Halting at pc 0x0202: unrecognized opcode 0xFFFF\n" := by
    rw [records, hboot, ← hm]
    decide +kernel
  have hfault : EndsAs shortSession shortProgram ChaCha.zeroKey
      (.faulted (.unrecognizedOpcode 0xFFFF)) :=
    .faulted hprepare (by rintro budget ⟨⟩; decide) hready
      (Machine.status_tick_eq_faulted_iff.1 hstatus)
  obtain ⟨-, -, hending, -, hheadless⟩ :=
    command_line_outcome l hparse hfile hhold ChaCha.zeroKey
  obtain ⟨e, he⟩ : ∃ e, main? l words files ChaCha.zeroKey 0 = some e := by
    rw [main?_eq hparse hfile hkeypad, if_pos hrom, if_neg fun hmore => by cases hmore.1]
    exact ⟨_, rfl⟩
  obtain ⟨st, -, hunique, hend, hlines⟩ := hending 0 e he
  obtain rfl := hunique _ hfault
  refine ⟨hparse, hparse', hhold, Logger.orderly_upTo _, Logger.discreet_upTo_error, e, he, ?_, ?_,
    ?_⟩
  · rw [hend]
    have hshown : ¬ shortSession.headless = true := Bool.false_ne_true
    have hbudget : shortSession.maxTicks.getD 0 = 5 := rfl
    rw [if_neg hshown, hbudget, hpictures, hlog]
    rfl
  · exact hlines (Logger.orderly_upTo _)
  · rw [hheadless Logger.discreet_upTo_error ("--headless" :: words) true ChaCha.zeroKey 0 hparse'
      (.inl rfl), he]
    rfl

end ChipEight
