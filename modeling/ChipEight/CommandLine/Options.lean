import ChipEight.CommandLine.Numeral
import ChipEight.Config

/-!
# Options

The command line names one program file and may choose the speed, the length of the run, the
dialect, the keys held down and whether pictures are shown.

* `Flag`, `Setting`: the options without and with a value, `OptionKind`: these and the request for
  help;
* `UsageError`: why a command line leads to no run;
* `Options`, `Options.config`: what a command line asks for, and the configuration that it chooses;
* `Options.parse`: a command line read.

An option is written `--name`, its value `--name value` or `--name=value`; the word `--` ends the
options.  Each option may be given once.  A value that is a word of its own does not begin with a
hyphen, unless it is a single hyphen.  Words are judged from left to right and each value together
with its option, so of a bad word and a request for help the first decides; what concerns several
words, two options that exclude each other or a program that is not named, is looked at last.
-/

namespace ChipEight

/-- An option without a value. -/
inductive Flag
  | shiftVx
  | keyRegister
  | unboundedStack
  | headless
  deriving DecidableEq, Repr

/-- An option with a value. -/
inductive Setting
  | tickRate
  | maxTicks
  | seed
  | stackLimit
  | hold
  deriving DecidableEq, Repr

namespace Flag

/-- The name of a flag. -/
def name : Flag → String
  | shiftVx => "shift-vx"
  | keyRegister => "key-register"
  | unboundedStack => "unbounded-stack"
  | headless => "headless"

/-- All flags. -/
def all : List Flag := [shiftVx, keyRegister, unboundedStack, headless]

/-- The flag with a given name. -/
def ofName? (s : String) : Option Flag := all.find? (·.name == s)

end Flag

namespace Setting

/-- The name of a setting. -/
def name : Setting → String
  | tickRate => "tick-rate"
  | maxTicks => "max-ticks"
  | seed => "seed"
  | stackLimit => "stack-limit"
  | hold => "hold"

/-- All settings. -/
def all : List Setting := [tickRate, maxTicks, seed, stackLimit, hold]

/-- The setting with a given name. -/
def ofName? (s : String) : Option Setting := all.find? (·.name == s)

end Setting

/-- What an option can stand for. -/
inductive OptionKind
  /-- A description of the options is asked for. -/
  | help
  | flag (f : Flag)
  | setting (s : Setting)
  deriving DecidableEq, Repr

/-- What the option with a given name stands for. -/
def OptionKind.ofName? (name : String) : Option OptionKind :=
  if name == "help" then some help
  else
    match Flag.ofName? name with
    | some f => some (flag f)
    | none => (Setting.ofName? name).map setting

/-- Why a command line leads to no run. -/
inductive UsageError
  /-- A description of the options is asked for. -/
  | helpRequested
  | unknownOption (word : String)
  | repeatedFlag (flag : Flag)
  | repeatedSetting (setting : Setting)
  | missingValue (setting : Setting)
  | unexpectedValue (flag : Flag) (value : String)
  | invalidValue (setting : Setting) (value : String)
  | stackBoundTwice
  | missingRom
  | emptyRom
  | secondRom (path : String)
  deriving DecidableEq, Repr

/-- One line on the arguments. -/
def usage : String :=
  "usage: chip8 <ROM> [--tick-rate HZ] [--max-ticks N] [--seed S] [--shift-vx] [--key-register] " ++
    "[--stack-limit N | --unbounded-stack] [--hold KEYS] [--headless]"

/-- The wording of a rejection. -/
def UsageError.message : UsageError → String
  | helpRequested => "Runs a Chip-8 ROM in the terminal"
  | unknownOption word => "unexpected argument '" ++ word ++ "'"
  | repeatedFlag flag => "--" ++ flag.name ++ " may be given once only"
  | repeatedSetting setting => "--" ++ setting.name ++ " may be given once only"
  | missingValue setting => "--" ++ setting.name ++ " needs a value"
  | unexpectedValue flag value => "--" ++ flag.name ++ " takes no value, not '" ++ value ++ "'"
  | invalidValue setting value => "--" ++ setting.name ++ " cannot be '" ++ value ++ "'"
  | stackBoundTwice => "--unbounded-stack excludes --stack-limit"
  | missingRom => "no ROM is named"
  | emptyRom => "the name of the ROM is empty"
  | secondRom path => "unexpected argument '" ++ path ++ "'"

/-- What a command line asks for. -/
structure Options where
  /-- The path of the program. -/
  rom : String
  /-- Ticks per second. -/
  tickRate : UInt32 := defaultTickRate
  /-- The greatest number of ticks; `none` for no bound. -/
  maxTicks : Option Nat := none
  seed : Option UInt64 := none
  /-- Whether shifts read the register that they change. -/
  shiftVx : Bool := false
  /-- Whether key instructions find the code of their key in a register. -/
  keyRegister : Bool := false
  stackLimit : Nat := defaultStackLimit
  /-- Whether there is no limit on pending calls. -/
  unboundedStack : Bool := false
  /-- The characters of the keys held down. -/
  hold : String := ""
  /-- Whether pictures are shown nowhere. -/
  headless : Bool := false
  deriving DecidableEq, Repr

namespace Options

/-- The dialect that the options choose. -/
def dialect (o : Options) : Dialect where
  shiftOperand := if o.shiftVx then .x else .y
  keySelector := if o.keyRegister then .register else .digit
  stackLimit := if o.unboundedStack then none else some o.stackLimit

/-- The configuration that the options choose. -/
def config (o : Options) : Config where
  tickRate := o.tickRate
  seed := o.seed
  dialect := o.dialect

end Options

/-! ### Words -/

/-- A word of the command line by its form. -/
inductive Word
  /-- The word `--`. -/
  | separator
  /-- A word that begins with two hyphens: a name, and what follows the first equals sign. -/
  | long (name : String) (value : Option String)
  /-- Another word that begins with a hyphen, and the character after the hyphen. -/
  | short (letter : Char)
  | plain
  deriving DecidableEq, Repr

/-- The form of a word. -/
def Word.ofString (s : String) : Word :=
  match s.toList with
  | ['-', '-'] => separator
  | '-' :: '-' :: cs =>
      long (String.ofList (cs.takeWhile (· ≠ '=')))
        (match cs.dropWhile (· ≠ '=') with
        | [] => none
        | _ :: value => some (String.ofList value))
  | '-' :: c :: _ => short c
  | _ => plain

/-! ### Reading words -/

/-- The largest tick rate that can be asked for. -/
def maxTickRate : Nat := 4294967295

/-- The largest seed, stack limit and number of ticks that can be asked for. -/
def maxSetting : Nat := 18446744073709551615

/-- The tick rate that a text gives. -/
def tickRate? (value : String) : Option UInt32 :=
  (Numeral.signed? maxTickRate value).map UInt32.ofNat

/-- The seed that a text gives. -/
def seed? (value : String) : Option UInt64 :=
  (Numeral.unsigned? maxSetting value).map UInt64.ofNat

/-- The options read so far; a setting not given yet is `none`. -/
structure Draft where
  rom : Option String := none
  flags : List Flag := []
  tickRate : Option UInt32 := none
  maxTicks : Option Nat := none
  seed : Option UInt64 := none
  stackLimit : Option Nat := none
  hold : Option String := none

/-- What the text `value` gives for a setting, of which `before` has been given already. -/
def Setting.once {α : Type} (s : Setting) (before : Option α) (read? : String → Option α)
    (value : String) : Except UsageError α :=
  if before.isSome then .error (.repeatedSetting s)
  else
    match read? value with
    | none => .error (.invalidValue s value)
    | some a => .ok a

namespace Draft

/-- Add a flag that has not been given yet. -/
def addFlag (d : Draft) (f : Flag) : Except UsageError Draft :=
  if f ∈ d.flags then .error (.repeatedFlag f) else .ok { d with flags := f :: d.flags }

/-- Add a setting that has not been given yet. -/
def addSetting (d : Draft) (s : Setting) (value : String) : Except UsageError Draft :=
  match s with
  | .tickRate =>
      (s.once d.tickRate tickRate? value).map fun a => { d with tickRate := some a }
  | .maxTicks =>
      (s.once d.maxTicks (Numeral.unsigned? maxSetting) value).map fun a =>
        { d with maxTicks := some a }
  | .seed => (s.once d.seed seed? value).map fun a => { d with seed := some a }
  | .stackLimit =>
      (s.once d.stackLimit (Numeral.unsigned? maxSetting) value).map fun a =>
        { d with stackLimit := some a }
  | .hold => (s.once d.hold some value).map fun a => { d with hold := some a }

/-- Add the path of the program. -/
def addRom (d : Draft) (path : String) : Except UsageError Draft :=
  if path.isEmpty then .error .emptyRom
  else if d.rom.isSome then .error (.secondRom path)
  else .ok { d with rom := some path }

/-- Read words none of which is an option. -/
def readPlain (d : Draft) : List String → Except UsageError Draft
  | [] => .ok d
  | w :: ws =>
      match d.addRom w with
      | .error e => .error e
      | .ok d => d.readPlain ws

/-- Read words; `awaited` is a setting whose value must come next. -/
def readWords (d : Draft) (awaited : Option Setting) : List String → Except UsageError Draft
  | [] =>
      match awaited with
      | none => .ok d
      | some s => .error (.missingValue s)
  | w :: ws =>
      match awaited, Word.ofString w with
      | some s, .plain =>
          match d.addSetting s w with
          | .error e => .error e
          | .ok d => d.readWords none ws
      | some s, _ => .error (.missingValue s)
      | none, .separator => d.readPlain ws
      | none, .short letter =>
          if letter = 'h' then .error .helpRequested else .error (.unknownOption w)
      | none, .plain =>
          match d.addRom w with
          | .error e => .error e
          | .ok d => d.readWords none ws
      | none, .long name value =>
          match OptionKind.ofName? name, value with
          | none, _ => .error (.unknownOption w)
          | some .help, none => .error .helpRequested
          | some .help, some _ => .error (.unknownOption w)
          | some (.flag f), none =>
              match d.addFlag f with
              | .error e => .error e
              | .ok d => d.readWords none ws
          | some (.flag f), some v => .error (.unexpectedValue f v)
          | some (.setting s), none => d.readWords (some s) ws
          | some (.setting s), some v =>
              match d.addSetting s v with
              | .error e => .error e
              | .ok d => d.readWords none ws

/-- The options, once all words have been read. -/
def complete (d : Draft) : Except UsageError Options :=
  if .unboundedStack ∈ d.flags ∧ d.stackLimit.isSome then .error .stackBoundTwice
  else
    match d.rom with
    | none => .error .missingRom
    | some rom =>
        .ok {
          rom := rom
          tickRate := d.tickRate.getD defaultTickRate
          maxTicks := d.maxTicks
          seed := d.seed
          shiftVx := decide (.shiftVx ∈ d.flags)
          keyRegister := decide (.keyRegister ∈ d.flags)
          stackLimit := d.stackLimit.getD defaultStackLimit
          unboundedStack := decide (.unboundedStack ∈ d.flags)
          hold := d.hold.getD ""
          headless := decide (.headless ∈ d.flags) }

end Draft

/-- Read a command line, the name of the program left out. -/
def Options.parse (words : List String) : Except UsageError Options :=
  match Draft.readWords {} none words with
  | .error e => .error e
  | .ok d => d.complete

end ChipEight
