import ChipEight.CommandLine.Options
import Mathlib.Data.List.Nodup
import Mathlib.Data.List.TakeWhile

/-!
# What a command line means

A command line is read from left to right, with a setting whose value is still to come kept in mind.
Its meaning is that of the arguments that it spells, whatever their order: a flag is on if it is
given, a setting has the value given or its default.

* `Argument`, `Argument.Spells`: arguments, and the words that spell them;
* `Argument.Chooses`: the options that arguments choose;
* `Draft.readWords_eq_ok_iff`: reading words is adding the arguments that they spell;
* `Draft.Collects`, `Draft.addAll_eq_ok_iff`: what has been read is what has been given;
* `Options.parse_eq_ok_iff`: the main result.
-/

namespace ChipEight

/-- One argument of a command line. -/
inductive Argument
  | flag (f : Flag)
  | setting (s : Setting) (value : String)
  | rom (path : String)
  deriving DecidableEq, Repr

namespace Argument

/-- Words that spell arguments.  The value of a setting follows an equals sign, or is the next word
unless that looks like an option; after the word `--` all words are paths. -/
inductive Spells : List Argument → List String → Prop
  | nil : Spells [] []
  | flag {f : Flag} {as : List Argument} {ws : List String} (h : Spells as ws) :
      Spells (.flag f :: as) (("--" ++ f.name) :: ws)
  | assigned {s : Setting} {value : String} {as : List Argument} {ws : List String}
      (h : Spells as ws) :
      Spells (.setting s value :: as) (("--" ++ s.name ++ "=" ++ value) :: ws)
  | spaced {s : Setting} {value : String} {as : List Argument} {ws : List String}
      (hvalue : Word.ofString value = .plain) (h : Spells as ws) :
      Spells (.setting s value :: as) (("--" ++ s.name) :: value :: ws)
  | rom {path : String} {as : List Argument} {ws : List String}
      (hpath : Word.ofString path = .plain) (h : Spells as ws) :
      Spells (.rom path :: as) (path :: ws)
  | separated (paths : List String) : Spells (paths.map .rom) ("--" :: paths)

/-- The path that an argument names. -/
def path? : Argument → Option String
  | rom path => some path
  | _ => none

/-- The flag that an argument is. -/
def flag? : Argument → Option Flag
  | flag f => some f
  | _ => none

/-- The value that an argument gives to a setting. -/
def value? (s : Setting) : Argument → Option String
  | setting t value => if t = s then some value else none
  | _ => none

/-- The values given to a setting, in order. -/
def values (s : Setting) (as : List Argument) : List String := as.filterMap (value? s)

/-- A setting is given the value `a?`, of which `read?` makes sense, and is given it once; or it is
not given, and `a?` is `none`. -/
def Gives {α : Type} (as : List Argument) (s : Setting) (read? : String → Option α)
    (a? : Option α) : Prop :=
  (values s as).map read? = a?.toList.map some

/-- The options that arguments choose.  One path is named, no flag is given twice, the two options
on pending calls exclude each other, and what is not given has its default. -/
structure Chooses (as : List Argument) (o : Options) : Prop where
  rom : as.filterMap path? = [o.rom]
  rom_ne : o.rom ≠ ""
  once : (as.filterMap flag?).Nodup
  exclusive : .flag .unboundedStack ∈ as → values .stackLimit as = []
  tickRate : ∃ a?, Gives as .tickRate tickRate? a? ∧ o.tickRate = a?.getD defaultTickRate
  maxTicks : Gives as .maxTicks (Numeral.unsigned? maxSetting) o.maxTicks
  seed : Gives as .seed seed? o.seed
  shiftVx : o.shiftVx = decide (.flag .shiftVx ∈ as)
  keyRegister : o.keyRegister = decide (.flag .keyRegister ∈ as)
  stackLimit : ∃ a?, Gives as .stackLimit (Numeral.unsigned? maxSetting) a? ∧
    o.stackLimit = a?.getD defaultStackLimit
  unboundedStack : o.unboundedStack = decide (.flag .unboundedStack ∈ as)
  hold : ∃ a?, Gives as .hold some a? ∧ o.hold = a?.getD ""
  headless : o.headless = decide (.flag .headless ∈ as)

end Argument

/-! ### Numerals -/

namespace Numeral

variable {n bound : ℕ}

theorem continue?_eq {cs : List Char} (h : ∀ c ∈ cs, c.isDigit = true) (n : ℕ) :
    continue? n cs = some (Nat.ofDigitChars 10 cs n) := by
  induction cs generalizing n with
  | nil => rfl
  | cons c cs ih =>
    obtain ⟨hc, hcs⟩ := List.forall_mem_cons.1 h
    rw [continue?, digit?, if_pos hc, Nat.ofDigitChars_cons]
    exact ih hcs _

/-- A number is read from its decimal digits. -/
theorem unsigned?_toString (h : n ≤ bound) : unsigned? bound (toString n) = some n := by
  have hdigits : ∀ c ∈ Nat.toDigits 10 n, c.isDigit = true :=
    fun c hc => Nat.isDigit_of_mem_toDigits (by decide) (by decide) hc
  obtain ⟨c, cs, hcs⟩ := List.exists_cons_of_ne_nil (Nat.toDigits_ne_nil (n := n) (b := 10))
  have hvalue : digits? (c :: cs) = some n := by
    rw [digits?, continue?_eq (hcs ▸ hdigits), ← hcs, Nat.ofDigitChars_ten_toDigits]
    exact List.cons_ne_nil c cs
  have hplus : c ≠ '+' := by
    rintro rfl
    exact absurd (hdigits '+' (hcs ▸ List.mem_cons_self)) (by decide)
  have hbound : (some n).filter (· ≤ bound) = some n := by simp [h]
  unfold unsigned?
  rw [Nat.toString_eq_ofList_toDigits, String.toList_ofList, hcs]
  refine (congrArg (Option.filter _) ?_).trans hbound
  split
  · next heq => exact absurd (List.cons.inj heq).1 hplus
  · exact hvalue

/-- A sign makes no difference to a number that is read from its digits. -/
theorem signed?_toString (h : n ≤ bound) : signed? bound (toString n) = some n := by
  have hminus : '-' ∉ Nat.toDigits 10 n := fun hmem =>
    absurd (Nat.isDigit_of_mem_toDigits (by decide) (by decide) hmem) (by decide)
  rw [signed?, unsigned?_toString h]
  split
  · next cs hcs =>
    rw [Nat.toString_eq_ofList_toDigits, String.toList_ofList] at hcs
    exact absurd (hcs ▸ List.mem_cons_self) hminus
  · rfl

end Numeral

/-! ### The words of an argument -/

namespace Word

/-- A word that names an option. -/
theorem ofString_name {name : List Char} (h : '=' ∉ name) (hne : name ≠ []) :
    ofString (String.ofList ('-' :: '-' :: name)) = .long (String.ofList name) none := by
  have htake : name.takeWhile (· ≠ '=') = name :=
    List.takeWhile_eq_self_iff.2 fun c hc => decide_eq_true fun heq => h (heq ▸ hc)
  have hdrop : name.dropWhile (· ≠ '=') = [] :=
    List.dropWhile_eq_nil_iff.2 fun c hc => decide_eq_true fun heq => h (heq ▸ hc)
  obtain ⟨c, cs, rfl⟩ := List.exists_cons_of_ne_nil hne
  unfold ofString
  rw [String.toList_ofList]
  show Word.long _ _ = _
  rw [htake]
  simp only [hdrop]

/-- A word that gives a value to a name. -/
theorem ofString_assignment (name value : List Char) (h : '=' ∉ name) :
    ofString (String.ofList ('-' :: '-' :: (name ++ '=' :: value))) =
      .long (String.ofList name) (some (String.ofList value)) := by
  have htake : (name ++ '=' :: value).takeWhile (· ≠ '=') = name := by
    rw [List.takeWhile_append_of_pos (fun c hc => by grind)]
    simp
  have hdrop : (name ++ '=' :: value).dropWhile (· ≠ '=') = '=' :: value := by
    rw [List.dropWhile_append_of_pos (fun c hc => by grind)]
    simp
  unfold ofString
  rw [String.toList_ofList]
  cases name with
  | nil => simp
  | cons c cs =>
    show Word.long _ _ = _
    rw [htake]
    simp only [hdrop]

theorem eq_of_ofString_separator {w : String} (h : ofString w = .separator) : w = "--" := by
  unfold ofString at h
  split at h
  · next hw => rw [← String.toList_inj, hw]; rfl
  · cases h
  · cases h
  · cases h

/-- A long word is two hyphens, a name and perhaps a value. -/
theorem eq_of_ofString {w name : String} {value : Option String}
    (h : ofString w = .long name value) :
    w = "--" ++ name ++ value.elim "" ("=" ++ ·) := by
  unfold ofString at h
  split at h
  · cases h
  · next cs _ hw =>
    have hsplit : cs.takeWhile (· ≠ '=') ++ cs.dropWhile (· ≠ '=') = cs :=
      List.takeWhile_append_dropWhile
    have hfirst := List.head?_dropWhile_not (· ≠ '=') cs
    obtain ⟨rfl, rfl⟩ := Word.long.inj h
    rw [← String.toList_inj, hw, String.toList_append, String.toList_append, String.toList_ofList]
    clear h
    generalize cs.takeWhile (· ≠ '=') = front, cs.dropWhile (· ≠ '=') = rest at hsplit hfirst ⊢
    subst hsplit
    cases rest with
    | nil => simp
    | cons c rest =>
      obtain rfl : c = '=' := by simpa using hfirst
      simp
  · cases h
  · cases h

end Word

namespace OptionKind

/-- The name of an option. -/
def name : OptionKind → String
  | help => "help"
  | flag f => f.name
  | setting s => s.name

theorem ofName?_eq_some_iff {name : String} {o : OptionKind} :
    ofName? name = some o ↔ name = o.name := by
  constructor
  · intro h
    unfold ofName? at h
    split at h
    · next hname =>
      cases h
      exact eq_of_beq hname
    · split at h
      · next f hf =>
        cases h
        exact (eq_of_beq (List.find?_some (p := fun g : Flag => g.name == name) hf)).symm
      · obtain ⟨s, hs, rfl⟩ := Option.map_eq_some_iff.1 h
        exact (eq_of_beq (List.find?_some (p := fun t : Setting => t.name == name) hs)).symm
  · rintro rfl
    cases o with
    | help => rfl
    | flag f => cases f <;> rfl
    | setting s => cases s <;> rfl

theorem equals_notMem_name (o : OptionKind) : '=' ∉ o.name.toList := by
  cases o with
  | help => decide +kernel
  | flag f => cases f <;> decide +kernel
  | setting s => cases s <;> decide +kernel

/-- The word that gives an option. -/
theorem ofString_name (o : OptionKind) : Word.ofString ("--" ++ o.name) = .long o.name none := by
  have hne : o.name.toList ≠ [] := by
    cases o with
    | help => decide +kernel
    | flag f => cases f <;> decide +kernel
    | setting s => cases s <;> decide +kernel
  have hword : "--" ++ o.name = String.ofList ('-' :: '-' :: o.name.toList) := by
    rw [← String.toList_inj, String.toList_ofList]
    simp
  rw [hword, Word.ofString_name o.equals_notMem_name hne, String.ofList_toList]

/-- The word that gives a value to an option. -/
theorem ofString_assignment (o : OptionKind) (value : String) :
    Word.ofString ("--" ++ o.name ++ "=" ++ value) = .long o.name (some value) := by
  have hword : "--" ++ o.name ++ "=" ++ value =
      String.ofList ('-' :: '-' :: (o.name.toList ++ '=' :: value.toList)) := by
    rw [← String.toList_inj, String.toList_ofList]
    simp
  rw [hword, Word.ofString_assignment _ _ o.equals_notMem_name, String.ofList_toList,
    String.ofList_toList]

end OptionKind

/-! ### Reading words -/

namespace Draft

/-- Add an argument. -/
def add (d : Draft) : Argument → Except UsageError Draft
  | .flag f => d.addFlag f
  | .setting s value => d.addSetting s value
  | .rom path => d.addRom path

/-- Add one argument after the other. -/
def addAll (d : Draft) : List Argument → Except UsageError Draft
  | [] => .ok d
  | a :: as =>
      match d.add a with
      | .error e => .error e
      | .ok d => d.addAll as

variable {d d' : Draft} {ws : List String}

theorem readPlain_eq_addAll (d : Draft) (ws : List String) :
    d.readPlain ws = d.addAll (ws.map .rom) := by
  induction ws generalizing d with
  | nil => rfl
  | cons w ws ih =>
    rw [readPlain, List.map_cons, addAll, add]
    cases d.addRom w with
    | error e => rfl
    | ok d => exact ih d

/-- Adding an argument and then others. -/
theorem addAll_cons_eq_ok_iff {a : Argument} {as : List Argument} :
    d.addAll (a :: as) = .ok d' ↔ ∃ d₁, d.add a = .ok d₁ ∧ d₁.addAll as = .ok d' := by
  rw [addAll]
  cases d.add a <;> simp

/-- Words that spell arguments add them. -/
theorem readWords_of_spells {as : List Argument} (hs : Argument.Spells as ws)
    (h : d.addAll as = .ok d') : d.readWords none ws = .ok d' := by
  induction hs generalizing d with
  | nil => exact h
  | @flag f _ _ _ ih =>
    obtain ⟨d₁, hd, hrest⟩ := addAll_cons_eq_ok_iff.1 h
    have hd : d.addFlag f = .ok d₁ := hd
    have hkind : OptionKind.ofName? f.name = some (.flag f) := OptionKind.ofName?_eq_some_iff.2 rfl
    have hword : Word.ofString ("--" ++ f.name) = .long f.name none :=
      OptionKind.ofString_name (.flag f)
    unfold readWords
    simp only [hword, hkind, hd, ih hrest]
  | @assigned s value _ _ _ ih =>
    obtain ⟨d₁, hd, hrest⟩ := addAll_cons_eq_ok_iff.1 h
    have hd : d.addSetting s value = .ok d₁ := hd
    have hkind : OptionKind.ofName? s.name = some (.setting s) :=
      OptionKind.ofName?_eq_some_iff.2 rfl
    have hword : Word.ofString ("--" ++ s.name ++ "=" ++ value) = .long s.name (some value) :=
      OptionKind.ofString_assignment (.setting s) value
    unfold readWords
    simp only [hword, hkind, hd, ih hrest]
  | @spaced s value _ _ hvalue _ ih =>
    obtain ⟨d₁, hd, hrest⟩ := addAll_cons_eq_ok_iff.1 h
    have hd : d.addSetting s value = .ok d₁ := hd
    have hkind : OptionKind.ofName? s.name = some (.setting s) :=
      OptionKind.ofName?_eq_some_iff.2 rfl
    have hword : Word.ofString ("--" ++ s.name) = .long s.name none :=
      OptionKind.ofString_name (.setting s)
    rw [readWords.eq_def]
    simp only [hword, hkind]
    rw [readWords.eq_def]
    simp only [hvalue, hd, ih hrest]
  | @rom path _ _ hpath _ ih =>
    obtain ⟨d₁, hd, hrest⟩ := addAll_cons_eq_ok_iff.1 h
    have hd : d.addRom path = .ok d₁ := hd
    unfold readWords
    simp only [hpath, hd, ih hrest]
  | separated paths =>
    have hword : Word.ofString "--" = .separator := rfl
    unfold readWords
    simp only [hword, readPlain_eq_addAll, h]

/-- Words spell arguments that lead from one draft to another.  A setting whose value is awaited is
the first of these arguments, and its value the first of the words. -/
def Leads (d : Draft) (ws : List String) (d' : Draft) : Option Setting → Prop
  | none => ∃ as, Argument.Spells as ws ∧ d.addAll as = .ok d'
  | some s => ∃ value ws' as, ws = value :: ws' ∧ Word.ofString value = .plain ∧
      Argument.Spells as ws' ∧ d.addAll (.setting s value :: as) = .ok d'

/-- What has been read is spelled by the words. -/
theorem leads_of_readWords {awaited : Option Setting} (h : d.readWords awaited ws = .ok d') :
    d.Leads ws d' awaited := by
  induction ws generalizing d awaited with
  | nil =>
    cases awaited with
    | none => exact ⟨[], .nil, h⟩
    | some s => cases h
  | cons w ws ih =>
    -- after an argument has been added, the rest of the words is read
    have hadd : ∀ a, (match d.add a with
        | .error e => Except.error e
        | .ok d₁ => d₁.readWords none ws) = .ok d' →
        ∃ as, Argument.Spells as ws ∧ d.addAll (a :: as) = .ok d' := by
      intro a ha
      cases hd : d.add a with
      | error e =>
        rw [hd] at ha
        cases ha
      | ok d₁ =>
        rw [hd] at ha
        obtain ⟨as, hs, has⟩ := ih ha
        exact ⟨as, hs, addAll_cons_eq_ok_iff.2 ⟨d₁, hd, has⟩⟩
    rw [readWords.eq_def] at h
    simp only at h
    cases awaited with
    | some s =>
      cases hword : Word.ofString w with
      | plain =>
        simp only [hword] at h
        obtain ⟨as, hs, has⟩ := hadd (.setting s w) h
        exact ⟨w, ws, as, rfl, hword, hs, has⟩
      | _ => simp only [hword] at h; cases h
    | none =>
      cases hword : Word.ofString w with
      | separator =>
        simp only [hword] at h
        rw [readPlain_eq_addAll] at h
        obtain rfl := Word.eq_of_ofString_separator hword
        exact ⟨_, .separated ws, h⟩
      | short letter =>
        simp only [hword] at h
        split at h <;> cases h
      | plain =>
        simp only [hword] at h
        obtain ⟨as, hs, has⟩ := hadd (.rom w) h
        exact ⟨_, .rom hword hs, has⟩
      | long name value =>
        have hw := Word.eq_of_ofString hword
        cases hkind : OptionKind.ofName? name with
        | none => simp only [hword, hkind] at h; cases h
        | some o =>
          obtain rfl := OptionKind.ofName?_eq_some_iff.1 hkind
          simp only [hword, hkind] at h
          cases o with
          | help => cases value <;> cases h
          | flag f =>
            cases value with
            | some v => cases h
            | none =>
              obtain ⟨as, hs, has⟩ := hadd (.flag f) h
              obtain rfl : w = "--" ++ f.name := hw.trans String.append_empty
              exact ⟨_, .flag hs, has⟩
          | setting s =>
            cases value with
            | some v =>
              obtain ⟨as, hs, has⟩ := hadd (.setting s v) h
              obtain rfl : w = "--" ++ s.name ++ "=" ++ v :=
                hw.trans (String.append_assoc ..).symm
              exact ⟨_, .assigned hs, has⟩
            | none =>
              obtain ⟨v, ws', as, rfl, hv, hs, has⟩ := ih h
              obtain rfl : w = "--" ++ s.name := hw.trans String.append_empty
              exact ⟨_, .spaced hv hs, has⟩

/-- To read words is to add the arguments that they spell. -/
theorem readWords_eq_ok_iff :
    d.readWords none ws = .ok d' ↔ ∃ as, Argument.Spells as ws ∧ d.addAll as = .ok d' :=
  ⟨leads_of_readWords, fun ⟨_, hs, h⟩ => readWords_of_spells hs h⟩

end Draft

/-! ### What has been given -/

namespace Argument

variable {α : Type} {as bs : List Argument} {a : Argument} {s : Setting} {v : String}
  {read? : String → Option α} {x y : Option α} {f : Flag}

theorem mem_filterMap_flag? : f ∈ as.filterMap flag? ↔ .flag f ∈ as := by
  rw [List.mem_filterMap]
  constructor
  · rintro ⟨a, ha, hf⟩
    cases a with
    | flag g => exact Option.some.inj hf ▸ ha
    | _ => cases hf
  · exact fun h => ⟨_, h, rfl⟩

theorem values_append (as bs : List Argument) : values s (as ++ bs) = values s as ++ values s bs :=
  List.filterMap_append

theorem values_cons_setting (v : String) (as : List Argument) :
    values s (.setting s v :: as) = v :: values s as := by
  simp [values, value?]

/-- A setting has one value at most. -/
theorem Gives.unique (hx : Gives as s read? x) (hy : Gives as s read? y) : x = y := by
  have h := hx.symm.trans hy
  cases x <;> cases y <;> simp_all

/-- Other arguments give a setting no value. -/
theorem Gives.append_other (h : Gives as s read? x) (ha : a.value? s = none) :
    Gives (as ++ [a]) s read? x := by
  have hnone : values s [a] = [] := by simp [values, ha]
  rwa [Gives, values_append, hnone, List.append_nil]

theorem Gives.append_setting {b : α} (h : Gives as s read? none) (hv : read? v = some b) :
    Gives (as ++ [.setting s v]) s read? (some b) := by
  have hnil : (values s as).map read? = [] := h
  rw [Gives, values_append, values_cons_setting, List.map_append, hnil]
  simp [values, hv]

/-- A setting that is given a value has not been given one before, and the value makes sense. -/
theorem Gives.of_append (h : Gives as s read? x) (h' : Gives (as ++ .setting s v :: bs) s read? y) :
    x = none ∧ ∃ b, read? v = some b := by
  rw [Gives, values_append, values_cons_setting, List.map_append, List.map_cons, h] at h'
  cases x with
  | some b => cases y <;> simp at h'
  | none =>
    refine ⟨rfl, ?_⟩
    cases y with
    | none => simp at h'
    | some b =>
      obtain ⟨hv, -⟩ := List.cons.inj h'
      exact ⟨b, hv⟩

end Argument

/-- The value of a setting is taken if none has been given before and it makes sense. -/
theorem Setting.map_once_eq_ok_iff {α β : Type} {s : Setting} {before : Option α}
    {read? : String → Option α} {v : String} {g : α → β} {b : β} :
    (s.once before read? v).map g = .ok b ↔ before = none ∧ ∃ a, read? v = some a ∧ g a = b := by
  unfold once
  cases before with
  | some a => simp [Except.map]
  | none => cases read? v <;> simp [Except.map]

namespace Draft

open Argument

/-- A draft holds what arguments give. -/
structure Collects (d : Draft) (as : List Argument) : Prop where
  rom : d.rom.toList = as.filterMap path?
  rom_ne : ∀ path, d.rom = some path → path ≠ ""
  flags : d.flags.reverse = as.filterMap flag?
  once : d.flags.Nodup
  tickRate : Gives as .tickRate tickRate? d.tickRate
  maxTicks : Gives as .maxTicks (Numeral.unsigned? maxSetting) d.maxTicks
  seed : Gives as .seed seed? d.seed
  stackLimit : Gives as .stackLimit (Numeral.unsigned? maxSetting) d.stackLimit
  hold : Gives as .hold some d.hold

namespace Collects

variable {d d' : Draft} {as bs : List Argument} {a : Argument}

theorem nil : Collects {} [] where
  rom := rfl
  rom_ne _ h := by cases h
  flags := rfl
  once := List.nodup_nil
  tickRate := rfl
  maxTicks := rfl
  seed := rfl
  stackLimit := rfl
  hold := rfl

/-- Arguments leave one draft at most. -/
theorem unique (h : d.Collects as) (h' : d'.Collects as) : d' = d := by
  have hrom : d'.rom = d.rom := by
    have heq := h'.rom.trans h.rom.symm
    cases hd : d.rom <;> cases hd' : d'.rom <;> simp_all
  have hflags : d'.flags = d.flags := List.reverse_inj.1 (h'.flags.trans h.flags.symm)
  have htickRate := h'.tickRate.unique h.tickRate
  have hmaxTicks := h'.maxTicks.unique h.maxTicks
  have hseed := h'.seed.unique h.seed
  have hstackLimit := h'.stackLimit.unique h.stackLimit
  have hhold := h'.hold.unique h.hold
  obtain ⟨rom, flags, tickRate, maxTicks, seed, stackLimit, hold⟩ := d
  simp only at hrom hflags htickRate hmaxTicks hseed hstackLimit hhold
  rw [← hrom, ← hflags, ← htickRate, ← hmaxTicks, ← hseed, ← hstackLimit, ← hhold]

theorem mem_flags_iff (h : d.Collects as) {f : Flag} : f ∈ d.flags ↔ .flag f ∈ as := by
  rw [← List.mem_reverse, h.flags, mem_filterMap_flag?]

/-- An argument that is of no interest here. -/
theorem eq_filterMap_append {β : Type} {g : Argument → Option β} {bs : List β}
    (hbs : bs = as.filterMap g) (ha : g a = none) : bs = (as ++ [a]).filterMap g := by
  simp [hbs, ha]

theorem add_flag {f : Flag} (h : d.Collects as) (ha : d.addFlag f = .ok d') :
    d'.Collects (as ++ [.flag f]) := by
  unfold addFlag at ha
  split at ha
  · cases ha
  · next hf =>
    cases ha
    exact {
      rom := eq_filterMap_append h.rom rfl
      rom_ne := h.rom_ne
      flags := by simp [h.flags, flag?]
      once := List.nodup_cons.2 ⟨hf, h.once⟩
      tickRate := h.tickRate.append_other rfl
      maxTicks := h.maxTicks.append_other rfl
      seed := h.seed.append_other rfl
      stackLimit := h.stackLimit.append_other rfl
      hold := h.hold.append_other rfl }

theorem add_rom {path : String} (h : d.Collects as) (ha : d.addRom path = .ok d') :
    d'.Collects (as ++ [.rom path]) := by
  unfold addRom at ha
  split at ha
  · cases ha
  · next hpath =>
    split at ha
    · cases ha
    · next hrom =>
      cases ha
      have hnone : d.rom = none := by simpa using hrom
      have hnil : as.filterMap path? = [] := by rw [← h.rom, hnone]; rfl
      exact {
        rom := by simp [hnil, path?]
        rom_ne := fun p hp => by
          obtain rfl := Option.some.inj hp
          simpa using hpath
        flags := eq_filterMap_append h.flags rfl
        once := h.once
        tickRate := h.tickRate.append_other rfl
        maxTicks := h.maxTicks.append_other rfl
        seed := h.seed.append_other rfl
        stackLimit := h.stackLimit.append_other rfl
        hold := h.hold.append_other rfl }

/-- The setting that is given has not been given before; the others keep their values. -/
theorem add_setting {s : Setting} {v : String} (h : d.Collects as)
    (ha : d.addSetting s v = .ok d') : d'.Collects (as ++ [.setting s v]) := by
  have hkept : ∀ {α : Type} {t : Setting} {read? : String → Option α} {x : Option α}, s ≠ t →
      Gives as t read? x → Gives (as ++ [.setting s v]) t read? x :=
    fun hst hg => hg.append_other (if_neg hst)
  unfold addSetting at ha
  cases s <;> obtain ⟨hnone, b, hb, rfl⟩ := Setting.map_once_eq_ok_iff.1 ha <;>
    exact {
      rom := eq_filterMap_append h.rom rfl
      rom_ne := h.rom_ne
      flags := eq_filterMap_append h.flags rfl
      once := h.once
      tickRate := by
        first
        | exact hkept (by decide) h.tickRate
        | exact (hnone ▸ h.tickRate).append_setting hb
      maxTicks := by
        first
        | exact hkept (by decide) h.maxTicks
        | exact (hnone ▸ h.maxTicks).append_setting hb
      seed := by
        first
        | exact hkept (by decide) h.seed
        | exact (hnone ▸ h.seed).append_setting hb
      stackLimit := by
        first
        | exact hkept (by decide) h.stackLimit
        | exact (hnone ▸ h.stackLimit).append_setting hb
      hold := by
        first
        | exact hkept (by decide) h.hold
        | exact (hnone ▸ h.hold).append_setting hb }

/-- What is added has been given. -/
theorem add (h : d.Collects as) (ha : d.add a = .ok d') : d'.Collects (as ++ [a]) := by
  cases a with
  | flag f => exact h.add_flag ha
  | rom path => exact h.add_rom ha
  | setting s v => exact h.add_setting ha

/-- What has been given could be added. -/
theorem exists_add (h : d.Collects as) (h' : d'.Collects (as ++ a :: bs)) :
    ∃ d₁, d.add a = .ok d₁ := by
  cases a with
  | flag f =>
    have hf : f ∉ d.flags := by
      intro hmem
      have honce := List.nodup_reverse.2 h'.once
      rw [h'.flags, List.filterMap_append] at honce
      refine List.disjoint_of_nodup_append honce (a := f) ?_ ?_
      · rw [← h.flags]
        exact List.mem_reverse.2 hmem
      · exact List.mem_filterMap.2 ⟨_, List.mem_cons_self, rfl⟩
    exact ⟨_, if_neg hf⟩
  | rom path =>
    have hall := h'.rom
    rw [List.filterMap_append, List.filterMap_cons_some (f := path?) (b := path) rfl,
      ← h.rom] at hall
    obtain ⟨hnone, hsome⟩ : d.rom = none ∧ d'.rom = some path := by
      cases hd : d.rom <;> cases hd' : d'.rom <;> simp_all
    have hpath : ¬ path.isEmpty = true := by
      simpa using h'.rom_ne path hsome
    refine ⟨_, (if_neg hpath).trans (if_neg ?_)⟩
    simp [hnone]
  | setting s v =>
    have honce : ∀ {α : Type} {t : Setting} {read? : String → Option α} {x y : Option α}
        {g : α → Draft}, s = t → Gives as t read? x → Gives (as ++ .setting s v :: bs) t read? y →
        ∃ d₁, (t.once x read? v).map g = .ok d₁ := by
      rintro α t read? x y g rfl hx hy
      obtain ⟨hnone, b, hb⟩ := hx.of_append hy
      exact ⟨_, Setting.map_once_eq_ok_iff.2 ⟨hnone, b, hb, rfl⟩⟩
    cases s with
    | tickRate => exact honce rfl h.tickRate h'.tickRate
    | maxTicks => exact honce rfl h.maxTicks h'.maxTicks
    | seed => exact honce rfl h.seed h'.seed
    | stackLimit => exact honce rfl h.stackLimit h'.stackLimit
    | hold => exact honce rfl h.hold h'.hold

/-- What is added is what has been given, and nothing else can be. -/
theorem addAll_eq_ok_iff (h : d.Collects as) :
    d.addAll bs = .ok d' ↔ d'.Collects (as ++ bs) := by
  induction bs generalizing d as with
  | nil =>
    rw [addAll, List.append_nil]
    exact ⟨fun hd => Except.ok.inj hd ▸ h, fun h' => congrArg Except.ok (h.unique h').symm⟩
  | cons a bs ih =>
    rw [addAll_cons_eq_ok_iff]
    constructor
    · rintro ⟨d₁, hadd, hrest⟩
      simpa using (ih (h.add hadd)).1 hrest
    · intro h'
      obtain ⟨d₁, hadd⟩ := h.exists_add h'
      exact ⟨d₁, hadd, (ih (h.add hadd)).2 (by simpa using h')⟩

theorem values_stackLimit_eq_nil_iff (h : d.Collects as) :
    values .stackLimit as = [] ↔ d.stackLimit = none := by
  have hgives : (values .stackLimit as).map _ = _ := h.stackLimit
  rw [← List.map_eq_nil_iff (f := Numeral.unsigned? maxSetting), hgives]
  cases d.stackLimit <;> simp

/-- What a draft holds chooses the options that are made of it. -/
theorem complete_eq_ok_iff (h : d.Collects as) {o : Options} :
    d.complete = .ok o ↔ Chooses as o := by
  have hflag : ∀ f, decide (f ∈ d.flags) = decide (.flag f ∈ as) :=
    fun f => decide_eq_decide.2 h.mem_flags_iff
  constructor
  · intro ho
    unfold complete at ho
    split at ho
    · cases ho
    · next hbound =>
      split at ho
      · cases ho
      · next path hpath =>
        cases ho
        exact {
          rom := by rw [← h.rom, hpath]; rfl
          rom_ne := h.rom_ne path hpath
          once := by rw [← h.flags]; exact List.nodup_reverse.2 h.once
          exclusive := fun hmem => h.values_stackLimit_eq_nil_iff.2 <| by
            simpa using fun hsome => hbound ⟨h.mem_flags_iff.2 hmem, hsome⟩
          tickRate := ⟨_, h.tickRate, rfl⟩
          maxTicks := h.maxTicks
          seed := h.seed
          shiftVx := hflag _
          keyRegister := hflag _
          stackLimit := ⟨_, h.stackLimit, rfl⟩
          unboundedStack := hflag _
          hold := ⟨_, h.hold, rfl⟩
          headless := hflag _ }
  · intro ho
    have hbound : ¬ (.unboundedStack ∈ d.flags ∧ d.stackLimit.isSome = true) := by
      rintro ⟨hmem, hsome⟩
      rw [h.values_stackLimit_eq_nil_iff.1 (ho.exclusive (h.mem_flags_iff.1 hmem))] at hsome
      cases hsome
    have hrom : d.rom = some o.rom := by
      have heq := h.rom.trans ho.rom
      cases hd : d.rom <;> simp_all
    obtain ⟨tickRate, htickRate, hrate⟩ := ho.tickRate
    obtain ⟨stackLimit, hstackLimit, hlimit⟩ := ho.stackLimit
    obtain ⟨hold, hhold, hheld⟩ := ho.hold
    rw [complete, if_neg hbound, hrom]
    simp only [hflag, ← ho.shiftVx, ← ho.keyRegister, ← ho.unboundedStack, ← ho.headless,
      h.tickRate.unique htickRate, ← hrate, h.maxTicks.unique ho.maxTicks,
      h.seed.unique ho.seed, h.stackLimit.unique hstackLimit, ← hlimit, h.hold.unique hhold,
      ← hheld]

end Collects

end Draft

/-- Arguments that choose options can be collected. -/
theorem Argument.Chooses.exists_collects {as : List Argument} {o : Options}
    (h : Argument.Chooses as o) : ∃ d : Draft, d.Collects as := by
  obtain ⟨tickRate, htickRate, -⟩ := h.tickRate
  obtain ⟨stackLimit, hstackLimit, -⟩ := h.stackLimit
  obtain ⟨hold, hhold, -⟩ := h.hold
  exact ⟨{
    rom := some o.rom
    flags := (as.filterMap flag?).reverse
    tickRate := tickRate
    maxTicks := o.maxTicks
    seed := o.seed
    stackLimit := stackLimit
    hold := hold }, {
    rom := h.rom.symm
    rom_ne := fun path hpath => Option.some.inj hpath ▸ h.rom_ne
    flags := List.reverse_reverse _
    once := List.nodup_reverse.2 h.once
    tickRate := htickRate
    maxTicks := h.maxTicks
    seed := h.seed
    stackLimit := hstackLimit
    hold := hhold }⟩

/-- **What a command line means.**  A command line is accepted if and only if it spells arguments
that choose options, and what is read are these options. -/
theorem Options.parse_eq_ok_iff {words : List String} {o : Options} :
    Options.parse words = .ok o ↔ ∃ as, Argument.Spells as words ∧ Argument.Chooses as o := by
  constructor
  · intro h
    unfold parse at h
    split at h
    · cases h
    · next d hd =>
      obtain ⟨as, hs, has⟩ := Draft.readWords_eq_ok_iff.1 hd
      exact ⟨as, hs, (Draft.Collects.nil.addAll_eq_ok_iff.1 has).complete_eq_ok_iff.1 h⟩
  · rintro ⟨as, hs, ho⟩
    obtain ⟨d, hd⟩ := ho.exists_collects
    have has : Draft.addAll {} as = .ok d := Draft.Collects.nil.addAll_eq_ok_iff.2 hd
    rw [parse, Draft.readWords_of_spells hs has]
    exact hd.complete_eq_ok_iff.2 ho

end ChipEight
