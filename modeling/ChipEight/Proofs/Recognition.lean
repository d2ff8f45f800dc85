import ChipEight.Instruction.Decode
import Mathlib.Tactic.IntervalCases

/-!
# Which words are instructions

The instruction set as a table of patterns, each fixing some of the four digits of a word, and the
proof that decoding recognizes exactly the words that match one of them.

* `Opcode.Pattern`, `Opcode.Pattern.Matches`;
* `Opcode.Pattern.table`: the instruction set;
* `Instruction.Encoded`, `Instruction.decode?_eq_some_iff`: the instruction of a word;
* `Instruction.decode?_eq_none_iff`: a word that matches no pattern is no instruction.
-/

namespace ChipEight

namespace Opcode

/-- A pattern of words: its four digits, `none` standing for one that may be anything. -/
structure Pattern where
  group : Nat
  x : Option Nat
  y : Option Nat
  n : Option Nat

namespace Pattern

/-- Whether a word has the digits of a pattern. -/
def Matches (p : Pattern) (op : UInt16) : Prop :=
  (Opcode.group op).val = p.group ∧ (∀ d, p.x = some d → (Opcode.x op).val = d) ∧
    (∀ d, p.y = some d → (Opcode.y op).val = d) ∧ ∀ d, p.n = some d → (Opcode.n op).val = d

/-- The instruction set. -/
def table : List Pattern :=
  [⟨0x0, none, some 0x1, none⟩,          -- 0?1N
   ⟨0x0, some 0x0, some 0xE, some 0x0⟩,  -- 00E0
   ⟨0x0, some 0x0, some 0xE, some 0xE⟩,  -- 00EE
   ⟨0x1, none, none, none⟩,              -- 1NNN
   ⟨0x2, none, none, none⟩,              -- 2NNN
   ⟨0x3, none, none, none⟩,              -- 3XNN
   ⟨0x4, none, none, none⟩,              -- 4XNN
   ⟨0x5, none, none, some 0x0⟩,          -- 5XY0
   ⟨0x6, none, none, none⟩,              -- 6XNN
   ⟨0x7, none, none, none⟩,              -- 7XNN
   ⟨0x8, none, none, some 0x0⟩,          -- 8XY0
   ⟨0x8, none, none, some 0x1⟩,          -- 8XY1
   ⟨0x8, none, none, some 0x2⟩,          -- 8XY2
   ⟨0x8, none, none, some 0x3⟩,          -- 8XY3
   ⟨0x8, none, none, some 0x4⟩,          -- 8XY4
   ⟨0x8, none, none, some 0x5⟩,          -- 8XY5
   ⟨0x8, none, none, some 0x6⟩,          -- 8XY6
   ⟨0x8, none, none, some 0x7⟩,          -- 8XY7
   ⟨0x8, none, none, some 0xE⟩,          -- 8XYE
   ⟨0x9, none, none, some 0x0⟩,          -- 9XY0
   ⟨0xA, none, none, none⟩,              -- ANNN
   ⟨0xB, none, none, none⟩,              -- BNNN
   ⟨0xC, none, none, none⟩,              -- CXNN
   ⟨0xD, none, none, none⟩,              -- DXYN
   ⟨0xE, none, some 0x9, some 0xE⟩,      -- EX9E
   ⟨0xE, none, some 0xA, some 0x1⟩,      -- EXA1
   ⟨0xF, none, some 0x0, some 0x7⟩,      -- FX07
   ⟨0xF, none, some 0x1, some 0x5⟩,      -- FX15
   ⟨0xF, none, some 0x1, some 0x8⟩,      -- FX18
   ⟨0xF, none, some 0x1, some 0xE⟩,      -- FX1E
   ⟨0xF, none, some 0x2, some 0x9⟩,      -- FX29
   ⟨0xF, none, some 0x3, some 0x3⟩,      -- FX33
   ⟨0xF, none, some 0x5, some 0x5⟩,      -- FX55
   ⟨0xF, none, some 0x6, some 0x5⟩]      -- FX65

end Pattern

/-! ### Digits -/

theorem toNat_byte_eq (op : UInt16) : (byte op).toNat = 16 * (y op).val + (n op).val := by
  simp only [toNat_byte, val_y, val_n]
  omega

end Opcode

namespace Instruction

open Opcode

variable {op : UInt16} {i : Instruction}

/-- Whether a word is the code of an instruction. -/
def Encoded (op : UInt16) : Instruction → Prop
  | exit code => (group op).val = 0x0 ∧ (y op).val = 0x1 ∧ code = n op
  | clear => op = 0x00E0
  | ret => op = 0x00EE
  | jump a => (group op).val = 0x1 ∧ a = target op
  | call a => (group op).val = 0x2 ∧ a = target op
  | skip (.equalsByte v b) => (group op).val = 0x3 ∧ v = x op ∧ b = byte op
  | skip (.differsFromByte v b) => (group op).val = 0x4 ∧ v = x op ∧ b = byte op
  | skip (.equals v w) => (group op).val = 0x5 ∧ (n op).val = 0x0 ∧ v = x op ∧ w = y op
  | load v b => (group op).val = 0x6 ∧ v = x op ∧ b = byte op
  | addByte v b => (group op).val = 0x7 ∧ v = x op ∧ b = byte op
  | arithmetic o v w => (group op).val = 0x8 ∧ arithmetic? (n op).val = some o ∧ v = x op ∧ w = y op
  | skip (.differs v w) => (group op).val = 0x9 ∧ (n op).val = 0x0 ∧ v = x op ∧ w = y op
  | loadIndex a => (group op).val = 0xA ∧ a = target op
  | jumpOffset v b => (group op).val = 0xB ∧ v = x op ∧ b = byte op
  | random v b => (group op).val = 0xC ∧ v = x op ∧ b = byte op
  | draw v w rows => (group op).val = 0xD ∧ v = x op ∧ w = y op ∧ rows = n op
  | skip (.keyPressed v) => (group op).val = 0xE ∧ byte op = 0x9E ∧ v = x op
  | skip (.keyReleased v) => (group op).val = 0xE ∧ byte op = 0xA1 ∧ v = x op
  | readDelay v => (group op).val = 0xF ∧ byte op = 0x07 ∧ v = x op
  | setDelay v => (group op).val = 0xF ∧ byte op = 0x15 ∧ v = x op
  | setSound v => (group op).val = 0xF ∧ byte op = 0x18 ∧ v = x op
  | addIndex v => (group op).val = 0xF ∧ byte op = 0x1E ∧ v = x op
  | glyph v => (group op).val = 0xF ∧ byte op = 0x29 ∧ v = x op
  | decimal v => (group op).val = 0xF ∧ byte op = 0x33 ∧ v = x op
  | saveRegisters v => (group op).val = 0xF ∧ byte op = 0x55 ∧ v = x op
  | loadRegisters v => (group op).val = 0xF ∧ byte op = 0x65 ∧ v = x op

theorem encoded_of_decodeControl? (hg : (group op).val = 0) (h : decodeControl? op = some i) :
    i.Encoded op := by
  unfold decodeControl? at h
  split_ifs at h with h1 h2 h3
  · cases h; exact h1
  · cases h; exact h2
  · cases h; exact ⟨hg, h3, rfl⟩

theorem encoded_of_decodeKey? (hg : (group op).val = 0xE) (h : decodeKey? op = some i) :
    i.Encoded op := by
  unfold decodeKey? at h
  split at h
  case h_1 hb => cases h; exact ⟨hg, UInt8.toNat_inj.1 hb, rfl⟩
  case h_2 hb => cases h; exact ⟨hg, UInt8.toNat_inj.1 hb, rfl⟩
  case h_3 => cases h

theorem encoded_of_decodeTransfer? (hg : (group op).val = 0xF) (h : decodeTransfer? op = some i) :
    i.Encoded op := by
  unfold decodeTransfer? at h
  split at h <;> cases h <;> exact ⟨hg, UInt8.toNat_inj.1 ‹_›, rfl⟩

theorem encoded_of_decode? (h : decode? op = some i) : i.Encoded op := by
  unfold decode? at h
  split at h
  case h_1 hg => exact encoded_of_decodeControl? hg h
  case h_9 hg =>
    obtain ⟨o, ho, rfl⟩ := Option.map_eq_some_iff.1 h
    exact ⟨hg, ho, rfl, rfl⟩
  case h_6 hg =>
    split_ifs at h with hn
    cases h; exact ⟨hg, hn, rfl, rfl⟩
  case h_10 hg =>
    split_ifs at h with hn
    cases h; exact ⟨hg, hn, rfl, rfl⟩
  case h_14 hg => cases h; exact ⟨hg, rfl, rfl, rfl⟩
  case h_15 hg => exact encoded_of_decodeKey? hg h
  case h_16 =>
    -- the last group is what is left of sixteen
    have hlt := (group op).isLt
    exact encoded_of_decodeTransfer? (by grind) h
  all_goals
    cases h
    first
      | exact ⟨‹_›, rfl⟩
      | exact ⟨‹_›, rfl, rfl⟩

theorem decode?_of_encoded (h : i.Encoded op) : decode? op = some i := by
  cases i with
  | exit code =>
    obtain ⟨hg, hy, rfl⟩ := h
    -- the two words that are tried first have another third digit
    have h1 : op ≠ 0x00E0 := by rintro rfl; cases hy
    have h2 : op ≠ 0x00EE := by rintro rfl; cases hy
    unfold decode? decodeControl?
    rw [hg, hy, if_neg h1, if_neg h2]; rfl
  | clear => cases h; rfl
  | ret => cases h; rfl
  | arithmetic o v w =>
    obtain ⟨hg, ho, rfl, rfl⟩ := h
    unfold decode?
    rw [hg, ho]; rfl
  | draw v w rows =>
    obtain ⟨hg, rfl, rfl, rfl⟩ := h
    unfold decode?
    rw [hg]; rfl
  | jump a | call a | loadIndex a =>
    obtain ⟨hg, rfl⟩ := h
    unfold decode?
    rw [hg]; rfl
  | load v b | addByte v b | jumpOffset v b | random v b =>
    obtain ⟨hg, rfl, rfl⟩ := h
    unfold decode?
    rw [hg]; rfl
  | skip condition =>
    cases condition with
    | equalsByte v b | differsFromByte v b =>
      obtain ⟨hg, rfl, rfl⟩ := h
      unfold decode?
      rw [hg]; rfl
    | equals v w | differs v w =>
      obtain ⟨hg, hn, rfl, rfl⟩ := h
      unfold decode?
      rw [hg, hn]; rfl
    | keyPressed v | keyReleased v =>
      obtain ⟨hg, hb, rfl⟩ := h
      unfold decode? decodeKey?
      rw [hg, hb]; rfl
  | _ =>
    obtain ⟨hg, hb, rfl⟩ := h
    unfold decode? decodeTransfer?
    rw [hg, hb]; rfl

/-- **Decoding finds the instruction that a word is the code of.** -/
theorem decode?_eq_some_iff : decode? op = some i ↔ i.Encoded op :=
  ⟨encoded_of_decode?, decode?_of_encoded⟩

/-! ### Words that are no instructions -/

theorem decodeControl?_eq_none_iff (hg : (group op).val = 0) :
    decodeControl? op = none ↔
      (y op).val ≠ 1 ∧ ((x op).val = 0 → (y op).val = 0xE → (n op).val ≠ 0) ∧
      ((x op).val = 0 → (y op).val = 0xE → (n op).val ≠ 0xE) := by
  have h := op.toNat_lt
  simp only [decodeControl?, ← UInt16.toNat_inj, val_group, val_x, val_y, val_n,
    UInt16.reduceToNat] at hg ⊢
  split_ifs <;> grind

theorem arithmetic?_eq_none_iff (k : Fin 16) :
    arithmetic? k.val = none ↔
      k.val ≠ 0x0 ∧ k.val ≠ 0x1 ∧ k.val ≠ 0x2 ∧ k.val ≠ 0x3 ∧ k.val ≠ 0x4 ∧ k.val ≠ 0x5 ∧
      k.val ≠ 0x6 ∧ k.val ≠ 0x7 ∧ k.val ≠ 0xE := by
  decide +revert

theorem decodeKey?_eq_none_iff :
    decodeKey? op = none ↔
      ((y op).val = 0x9 → (n op).val ≠ 0xE) ∧ ((y op).val = 0xA → (n op).val ≠ 0x1) := by
  simp only [decodeKey?, toNat_byte_eq]
  have hn := (n op).isLt
  split <;> grind

theorem decodeTransfer?_eq_none_iff :
    decodeTransfer? op = none ↔
      ((y op).val = 0x0 → (n op).val ≠ 0x7) ∧ ((y op).val = 0x1 → (n op).val ≠ 0x5) ∧
      ((y op).val = 0x1 → (n op).val ≠ 0x8) ∧ ((y op).val = 0x1 → (n op).val ≠ 0xE) ∧
      ((y op).val = 0x2 → (n op).val ≠ 0x9) ∧ ((y op).val = 0x3 → (n op).val ≠ 0x3) ∧
      ((y op).val = 0x5 → (n op).val ≠ 0x5) ∧ ((y op).val = 0x6 → (n op).val ≠ 0x5) := by
  simp only [decodeTransfer?, toNat_byte_eq]
  have hn := (n op).isLt
  split <;> grind

/-- **Decoding recognizes the words that match a pattern of the table, and no others.** -/
theorem decode?_eq_none_iff : decode? op = none ↔ ¬ ∃ p ∈ Pattern.table, p.Matches op := by
  generalize hg : (group op).val = g
  simp only [Pattern.table, Pattern.Matches, hg, List.mem_cons, List.not_mem_nil, or_false,
    exists_eq_or_imp, exists_eq_left, reduceCtorEq, Option.some.injEq, false_implies,
    implies_true, forall_eq', true_and, and_true, not_or, not_and]
  have hlt : g < 16 := hg ▸ (group op).isLt
  unfold decode?
  rw [hg]
  -- each group looks at its own digits only
  interval_cases g
  case «0» => simpa [-val_y] using decodeControl?_eq_none_iff hg
  case «8» => simpa [-val_n] using arithmetic?_eq_none_iff (n op)
  case «14» => simpa using decodeKey?_eq_none_iff
  case «15» => simpa using decodeTransfer?_eq_none_iff
  all_goals simp [-val_n]

end Instruction

end ChipEight
