import ChipEight.Proofs.Endings

/-!
# Keys held for a session

The keys to hold are looked up first of all, character by character.  A character without a key
ends the program before its file is read; otherwise exactly the keys of the characters are held
from the first tick to the last, and only their set matters.

* `Keymap.toNat_lt_of_code?`, `Keymap.exists_code?`: the characters name all keys and nothing else;
* `Session.hold_eq`: what comes of the characters, in one equation;
* `Session.isPressed_of_hold`: the keys that are held;
* `Session.hold_congr`: strings with the same upper-case letters hold the same keys;
* `Machine.AtConsole.surroundings_afterTicks`: they are held for the whole run;
* `Session.exists_held`, `Options.parse_hold`: all sets of keys can be held;
* `held_keys`: the main result.
-/

namespace ChipEight

/-! ### The layout -/

namespace Keymap

variable {c d : Char} {k : UInt8}

theorem code?_congr (h : c.toUpper = d.toUpper) : code? c = code? d := by
  rw [code?, code?, h]

/-- A character names a key, if anything. -/
theorem toNat_lt_of_code? (h : code? c = some k) : k.toNat < Keypad.size := by
  obtain ⟨i, hi, rfl⟩ := Option.map_eq_some_iff.1 h
  have hlt : i < layout.length := by
    obtain ⟨hlt, -⟩ := List.findIdx?_eq_some_iff_getElem.1 hi
    exact hlt
  have hsize : i < Keypad.size := hlt
  rwa [UInt8.toNat_ofNat_of_lt' (Nat.lt_trans hlt (by decide))]

/-- Every key is named by the character at its place in the layout. -/
theorem exists_code? (h : k.toNat < Keypad.size) : ∃ c ∈ layout, code? c = some k := by
  have hall : ∀ i < Keypad.size, (layout.any fun c => code? c == some (.ofNat i)) = true := by
    decide
  obtain ⟨c, hmem, hc⟩ := List.any_eq_true.1 (hall k.toNat h)
  exact ⟨c, hmem, by rw [eq_of_beq hc, UInt8.ofNat_toNat]⟩

end Keymap

/-! ### Looking up the keys to hold -/

namespace Keypad

theorem isPressed_foldl_press (p : Keypad) (ks : List UInt8) (k : UInt8) :
    (ks.foldl press p).isPressed k = true ↔
      p.isPressed k = true ∨ k ∈ ks ∧ k.toNat < Keypad.size := by
  induction ks generalizing p with
  | nil => simp
  | cons j ks ih =>
    rw [List.foldl_cons, ih, press, isPressed_set]
    by_cases hj : k = j
    · subst hj
      by_cases hk : k.toNat < Keypad.size <;> simp [hk]
    · simp [hj]

end Keypad

namespace Session

variable {p q : Keypad} {cs ds : List Char} {c : Char}

/-- The first character without a key, if there is one. -/
def unmapped? (cs : List Char) : Option Char := cs.find? fun c => (Keymap.code? c).isNone

theorem unmapped?_eq_none_iff : unmapped? cs = none ↔ ∀ c ∈ cs, Keymap.code? c ≠ none := by
  simp [unmapped?]

/-- Keys are held one after another; the first character without a key is what is reported. -/
theorem hold_eq (p : Keypad) (cs : List Char) :
    hold p cs =
      match unmapped? cs with
      | some c => .error (.unmapped c)
      | none => .ok ((cs.filterMap Keymap.code?).foldl Keypad.press p) := by
  induction cs generalizing p with
  | nil => rfl
  | cons c cs ih =>
    cases hc : Keymap.code? c with
    | none => simp [hold, unmapped?, hc]
    | some k =>
      have hrest : unmapped? (c :: cs) = unmapped? cs := by simp [unmapped?, hc]
      rw [hold, hc, hrest, List.filterMap_cons_some hc, List.foldl_cons]
      exact ih (p.press k)

theorem hold_of_unmapped (h : unmapped? cs = some c) (p : Keypad) :
    hold p cs = .error (.unmapped c) := by
  rw [hold_eq, h]

/-- The keys that are held are those of the characters. -/
theorem isPressed_of_hold (h : hold p cs = .ok q) (k : UInt8) :
    q.isPressed k = true ↔
      p.isPressed k = true ∨ ∃ c ∈ cs, Keymap.code? c = some k := by
  rw [hold_eq] at h
  split at h
  · cases h
  · obtain rfl := Except.ok.inj h
    rw [Keypad.isPressed_foldl_press, List.mem_filterMap]
    refine or_congr_right ⟨And.left, fun hk => ⟨hk, ?_⟩⟩
    obtain ⟨c, -, hc⟩ := hk
    exact Keymap.toNat_lt_of_code? hc

/-- Neither order nor repetition nor the case of letters matters to what is held. -/
theorem hold_congr (hcs : ∀ c ∈ cs, Keymap.code? c ≠ none)
    (h : ∀ u, u ∈ ds.map Char.toUpper ↔ u ∈ cs.map Char.toUpper) (p : Keypad) :
    hold p ds = hold p cs := by
  -- a character of one string has a counterpart with the same key in the other
  have hkeys : ∀ {as bs : List Char}, (∀ u, u ∈ as.map Char.toUpper → u ∈ bs.map Char.toUpper) →
      ∀ a ∈ as, ∃ b ∈ bs, Keymap.code? b = Keymap.code? a := by
    intro as bs hsub a ha
    obtain ⟨b, hb, hba⟩ := List.mem_map.1 (hsub _ (List.mem_map_of_mem ha))
    exact ⟨b, hb, Keymap.code?_congr hba⟩
  have hds : ∀ d ∈ ds, Keymap.code? d ≠ none := by
    intro d hd
    obtain ⟨c, hc, hcd⟩ := hkeys (fun u => (h u).1) d hd
    exact hcd ▸ hcs c hc
  obtain ⟨q, hq⟩ := exists_hold hcs p
  obtain ⟨r, hr⟩ := exists_hold hds p
  rw [hq, hr]
  congr 1
  ext k
  rw [Bool.eq_iff_iff, isPressed_of_hold hq, isPressed_of_hold hr]
  refine or_congr_right ⟨?_, ?_⟩
  · rintro ⟨d, hd, hk⟩
    obtain ⟨c, hc, hcd⟩ := hkeys (fun u => (h u).1) d hd
    exact ⟨c, hc, hcd.trans hk⟩
  · rintro ⟨c, hc, hk⟩
    obtain ⟨d, hd, hdc⟩ := hkeys (fun u => (h u).2) c hc
    exact ⟨d, hd, hdc.trans hk⟩

/-- Every set of keys is held by some string. -/
theorem exists_held (p : Keypad) : ∃ s : String, hold Keypad.released s.toList = .ok p := by
  let cs := Keymap.layout.filter fun c => (Keymap.code? c).any p.isPressed
  have hcs : ∀ c ∈ cs, Keymap.code? c ≠ none := by
    intro c hc hnone
    have hany := (List.mem_filter.1 hc).2
    rw [hnone] at hany
    cases hany
  obtain ⟨q, hq⟩ := exists_hold hcs Keypad.released
  refine ⟨String.ofList cs, ?_⟩
  rw [String.toList_ofList, hq]
  congr 1
  ext k
  rw [Bool.eq_iff_iff, isPressed_of_hold hq, Keypad.isPressed_released]
  constructor
  · rintro (hk | ⟨c, hc, hk⟩)
    · cases hk
    · have hany := (List.mem_filter.1 hc).2
      rw [hk] at hany
      exact hany
  · intro hk
    have hsize : k.toNat < Keypad.size := by
      by_contra hlarge
      rw [p.isPressed_of_ignores (decide_eq_true (Nat.le_of_not_lt hlarge))] at hk
      cases hk
    obtain ⟨c, hc, hcode⟩ := Keymap.exists_code? hsize
    refine .inr ⟨c, List.mem_filter.2 ⟨hc, ?_⟩, hcode⟩
    rw [hcode]
    exact hk

end Session

/-! ### The arguments -/

/-- Every string can be given as the keys to hold. -/
theorem Options.parse_hold (s : String) :
    Options.parse ["game", "--hold=" ++ s] = .ok { rom := "game", hold := s } := by
  have hword : Word.ofString ("--hold=" ++ s) = .long "hold" (some s) := by
    have hs : "--hold=" ++ s =
        String.ofList ('-' :: '-' :: (['h', 'o', 'l', 'd'] ++ '=' :: s.toList)) := by
      rw [← String.toList_inj, String.toList_append, String.toList_ofList]
      simp
    rw [hs, Word.ofString_assignment _ _ (by decide), String.ofList_toList]
  have hgame : Word.ofString "game" = .plain := by rfl
  have hrom : ({} : Draft).addRom "game" = .ok { rom := some "game" } := by rfl
  have hset : ({ rom := some "game" } : Draft).addSetting .hold s =
      .ok { rom := some "game", hold := some s } := rfl
  have hread : Draft.readWords {} none ["game", "--hold=" ++ s] =
      .ok { rom := some "game", hold := some s } := by
    unfold Draft.readWords
    simp only [hgame, hrom]
    unfold Draft.readWords
    simp only [hword]
    rfl
  rw [Options.parse, hread]
  rfl

/-! ### The whole run -/

namespace Machine.AtConsole

variable {m : Machine Console}

theorem keypad_afterTicks (h : m.AtConsole) (t : ℕ) :
    (m.afterTicks t).host.keypad = m.host.keypad := by
  induction t with
  | zero => rfl
  | succ t ih => rw [m.afterTicks_succ, (h.afterTicks t).keypad_tick, ih]

/-- Instructions find the same keys pressed from the first tick to the last. -/
theorem surroundings_afterTicks (h : m.AtConsole) (t : ℕ) :
    (m.afterTicks t).surroundings.keys = m.host.keypad.isPressed := by
  show (m.afterTicks t).keys (m.afterTicks t).host = _
  rw [(h.afterTicks t).keys, Console.keys, h.keypad_afterTicks]

end Machine.AtConsole

namespace Session

variable {options : Options} {words words' : List String}

/-- The whole program, if some character has no key. -/
theorem main?_of_unmapped {c : Char} (hparse : Options.parse words = .ok options)
    (h : unmapped? options.hold.toList = some c)
    (l : Logger) (files : String → Except ReadError (List UInt8)) (entropy : ChaCha.Key)
    (fuel : ℕ) : main? l words files entropy fuel = some (abort (.unmapped c)) := by
  refine main?_of_prepare_error hparse ?_ l fuel
  rw [prepare, boot, hold_of_unmapped h]
  rfl

/-- A file is not read if some character has no key. -/
theorem bootReading_of_unmapped {μ : Type → Type} [Monad μ] {c : Char}
    (h : unmapped? options.hold.toList = some c)
    (read : String → μ (Except ReadError (List UInt8))) (entropy : ChaCha.Key) :
    bootReading options read entropy = pure (.error (.unmapped c)) := by
  unfold bootReading
  rw [hold_of_unmapped h]

theorem errorLine_unmapped (c : Char) :
    errorLine (.unmapped c) = "chip8: no keypad key is mapped to '" ++ c.toString ++ "'\n" := by
  have hfront : "chip8: no keypad key is mapped to '" =
      "chip8: " ++ "no keypad key is mapped to '" := by decide +kernel
  have hback : "'\n" = "'" ++ "\n" := by decide +kernel
  rw [hfront, hback]
  show "chip8: " ++ ("no keypad key is mapped to '" ++ c.toString ++ "'") ++ "\n" = _
  simp only [String.append_assoc]

/-- Two strings that hold the same keys lead to the same run. -/
theorem main?_congr {held : String} (hparse : Options.parse words = .ok options)
    (hparse' : Options.parse words' = .ok { options with hold := held })
    (h : hold Keypad.released held.toList = hold Keypad.released options.hold.toList)
    (l : Logger) (files : String → Except ReadError (List UInt8)) (entropy : ChaCha.Key)
    (fuel : ℕ) : main? l words' files entropy fuel = main? l words files entropy fuel := by
  have hboot : ∀ contents, boot { options with hold := held } contents entropy =
      boot options contents entropy := by
    intro contents
    unfold boot
    rw [h]
    rfl
  unfold main?
  rw [hparse, hparse']
  simp only [hboot]

end Session

open Session in
/-- **Held keys.**  If some character of the keys to hold names no key, the program fails with an
error that names the first such character, whatever the file is and without reading it, and before
any tick.  Otherwise the keys that instructions find pressed, from the first tick to the last, are
exactly those that the characters name; so the run is the same for any other string with the same
characters, their order, their repetition and the case of ASCII letters aside.  Every string can be
given, and every set of keys is held by one. -/
theorem held_keys {words : List String} {options : Options}
    (hparse : Options.parse words = .ok options) :
    let cs := options.hold.toList
    ((∃ c ∈ cs, Keymap.code? c = none) →
      ∃ before c after, cs = before ++ c :: after ∧ (∀ d ∈ before, Keymap.code? d ≠ none) ∧
        Keymap.code? c = none ∧
        (∀ l files entropy fuel, main? l words files entropy fuel =
          some (.exited 1 .empty
            ("chip8: no keypad key is mapped to '" ++ c.toString ++ "'\n"))) ∧
        ∀ (μ : Type → Type) [Monad μ] (read : String → μ (Except ReadError (List UInt8))) entropy,
          bootReading options read entropy = pure (.error (.unmapped c))) ∧
    ((∀ c ∈ cs, Keymap.code? c ≠ none) →
      (∀ rom entropy m, prepare options (.ok rom) entropy = .ok m → ∀ t k,
        (m.afterTicks t).surroundings.keys k = true ↔ ∃ c ∈ cs, Keymap.code? c = some k) ∧
      ∀ words' held, Options.parse words' = .ok { options with hold := held } →
        (∀ u, u ∈ held.toList.map Char.toUpper ↔ u ∈ cs.map Char.toUpper) →
        ∀ l files entropy fuel,
          main? l words' files entropy fuel = main? l words files entropy fuel) ∧
    (∀ s, Options.parse ["game", "--hold=" ++ s] = .ok { rom := "game", hold := s }) ∧
    ∀ p : Keypad, ∃ s : String, (∀ c ∈ s.toList, Keymap.code? c ≠ none) ∧
      ∀ k, p.isPressed k = true ↔ ∃ c ∈ s.toList, Keymap.code? c = some k := by
  intro cs
  refine ⟨fun hsome => ?_, fun hcs => ⟨fun rom entropy m hm t k => ?_, ?_⟩, Options.parse_hold,
    fun p => ?_⟩
  · obtain ⟨c, hc⟩ := Option.ne_none_iff_exists'.1 fun hnone =>
      let ⟨c, hmem, hc⟩ := hsome
      unmapped?_eq_none_iff.1 hnone c hmem hc
    obtain ⟨hcode, before, after, hsplit, hbefore⟩ := List.find?_eq_some_iff_append.1 hc
    refine ⟨before, c, after, hsplit, fun d hd => ?_, by simpa using hcode,
      fun l files entropy fuel => ?_, fun μ _ read entropy => ?_⟩
    · exact Option.isSome_iff_ne_none.1 (by simpa using hbefore d hd)
    · rw [main?_of_unmapped hparse hc, abort, errorLine_unmapped]
    · exact bootReading_of_unmapped hc read entropy
  · obtain ⟨keypad, program, -, hkeypad, -, rfl⟩ := exists_machine_of_prepare hm
    rw [(atConsole_machine options keypad program entropy).surroundings_afterTicks]
    show keypad.isPressed k = true ↔ _
    rw [isPressed_of_hold hkeypad, Keypad.isPressed_released]
    exact or_iff_right Bool.false_ne_true
  · intro words' held hparse' hheld l files entropy fuel
    exact main?_congr hparse hparse' (hold_congr hcs hheld Keypad.released) l files entropy fuel
  · obtain ⟨s, hs⟩ := exists_held p
    refine ⟨s, unmapped?_eq_none_iff.1 ?_, fun k => ?_⟩
    · cases hnone : unmapped? s.toList with
      | none => rfl
      | some c =>
        rw [hold_of_unmapped hnone] at hs
        cases hs
    · rw [isPressed_of_hold hs, Keypad.isPressed_released]
      simp

open Session in
/-- The keys of `q` and `w` are held, however they are written; the long `s`, a letter whose upper
case is an ASCII letter, names no key, and is named although the file is missing. -/
theorem held_keys_long_letter :
    let l := Logger.upTo (some .error)
    let entropy := ChaCha.zeroKey
    let files : String → Except ReadError (List UInt8) := fun _ => .ok shortProgram
    let missing : String → Except ReadError (List UInt8) :=
      fun _ => .error ⟨"No such file or directory", 2⟩
    (∃ m, prepare { rom := "game", hold := "Qw" } (.ok shortProgram) entropy = .ok m ∧
      (m.afterTicks 1).surroundings.keys 0x5 = true ∧
      ¬ (m.afterTicks 1).surroundings.keys 0x6 = true) ∧
    main? l ["game", "--hold=" ++ "wqW"] files entropy 5 =
      main? l ["game", "--hold=" ++ "Qw"] files entropy 5 ∧
    main? l ["game", "--hold=" ++ "qſ5"] missing entropy 5 =
      some (.exited 1 .empty ("chip8: no keypad key is mapped to '" ++ 'ſ'.toString ++ "'\n")) := by
  intro l entropy files missing
  have hletters : "Qw".toList = ['Q', 'w'] := by decide +kernel
  have hcs : ∀ c ∈ "Qw".toList, Keymap.code? c ≠ none :=
    unmapped?_eq_none_iff.1 (by decide +kernel)
  have hsame : ∀ u, u ∈ "wqW".toList.map Char.toUpper ↔ u ∈ "Qw".toList.map Char.toUpper := by
    intro u
    have hleft : "wqW".toList.map Char.toUpper = ['W', 'Q', 'W'] := by decide +kernel
    have hright : "Qw".toList.map Char.toUpper = ['Q', 'W'] := by decide +kernel
    rw [hleft, hright]
    simp only [List.mem_cons, List.not_mem_nil, or_false]
    constructor
    · rintro (hw | hq | hw)
      · exact .inr hw
      · exact .inl hq
      · exact .inr hw
    · rintro (hq | hw)
      · exact .inr (.inl hq)
      · exact .inl hw
  obtain ⟨-, hheld, -⟩ := held_keys (Options.parse_hold "Qw")
  obtain ⟨hkeys, hrun⟩ := hheld hcs
  obtain ⟨m, hm⟩ :
      ∃ m, prepare { rom := "game", hold := "Qw" } (.ok shortProgram) entropy = .ok m := by
    obtain ⟨keypad, hkeypad⟩ := exists_hold hcs Keypad.released
    exact ⟨_, (prepare_of_hold hkeypad shortProgram entropy).trans (if_pos (by decide))⟩
  refine ⟨⟨m, hm, ?_, ?_⟩, hrun _ "wqW" (Options.parse_hold "wqW") hsame l files entropy 5, ?_⟩
  · rw [hkeys _ _ _ hm]
    exact ⟨'w', by decide +kernel, by decide +kernel⟩
  · rw [hkeys _ _ _ hm, hletters]
    rintro ⟨c, hc, hk⟩
    rcases List.mem_pair.1 hc with rfl | rfl
    · exact absurd hk (by decide +kernel)
    · exact absurd hk (by decide +kernel)
  · obtain ⟨hfail, -⟩ := held_keys (Options.parse_hold "qſ5")
    have hlong : Keymap.code? 'ſ' = none := by decide +kernel
    obtain ⟨before, c, after, hsplit, hbefore, hcode, hmain, -⟩ :=
      hfail ⟨'ſ', by decide +kernel, hlong⟩
    have hfirst : unmapped? "qſ5".toList = some c :=
      List.find?_eq_some_iff_append.2 ⟨by rw [hcode]; rfl, before, after, hsplit, fun d hd => by
        simpa using Option.isSome_iff_ne_none.2 (hbefore d hd)⟩
    have hlongFirst : unmapped? "qſ5".toList = some 'ſ' := by decide +kernel
    obtain rfl : c = 'ſ' := Option.some.inj (hfirst.symm.trans hlongFirst)
    exact hmain l missing entropy 5

end ChipEight
