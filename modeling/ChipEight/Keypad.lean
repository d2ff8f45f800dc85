/-!
# Keypads

Sixteen keys, numbered from zero, each pressed or released.  A code of sixteen or more names no
key: setting it changes nothing, and it reads as released.

* `Keypad`, `Keypad.released`, `Keypad.isPressed`, `Keypad.set`;
* `Keypad.ignores`: the codes that name no key.
-/

namespace ChipEight

/-- The number of keys. -/
def Keypad.size : Nat := 16

/-- The state of every key. -/
structure Keypad where
  keys : Vector Bool Keypad.size
  deriving DecidableEq

namespace Keypad

/-- No key is pressed. -/
def released : Keypad := ⟨Vector.replicate Keypad.size false⟩

/-- Whether the key with code `k` is pressed. -/
def isPressed (p : Keypad) (k : UInt8) : Bool := (p.keys[k.toNat]?).getD false

/-- Whether `k` is the code of no key. -/
def ignores (k : UInt8) : Bool := decide (Keypad.size ≤ k.toNat)

/-- Press or release the key with code `k`, if there is one. -/
def set (p : Keypad) (k : UInt8) (on : Bool) : Keypad := ⟨p.keys.setIfInBounds k.toNat on⟩

/-- Press a key. -/
def press (p : Keypad) (k : UInt8) : Keypad := p.set k true

/-- Release a key. -/
def release (p : Keypad) (k : UInt8) : Keypad := p.set k false

/-- The codes that read as pressed, in ascending order. -/
def pressedKeys (p : Keypad) : List UInt8 :=
  ((List.range 256).map UInt8.ofNat).filter p.isPressed

@[simp] theorem isPressed_released (k : UInt8) : released.isPressed k = false := by
  simp only [isPressed, released, Vector.getElem?_replicate]
  split <;> rfl

theorem isPressed_of_ignores (p : Keypad) {k : UInt8} (h : ignores k = true) :
    p.isPressed k = false := by
  have h' : Keypad.size ≤ k.toNat := by simpa [ignores] using h
  simp [isPressed, Vector.getElem?_eq_none h']

/-- Two keypads that give the same answers are the same. -/
@[ext] theorem ext {p q : Keypad} (h : ∀ k, p.isPressed k = q.isPressed k) : p = q := by
  obtain ⟨v⟩ := p
  obtain ⟨w⟩ := q
  congr 1
  apply Vector.ext
  intro i hi
  have hlt : i < 2 ^ 8 := Nat.lt_trans hi (by decide)
  have hk := h (.ofNat i)
  simp only [isPressed, UInt8.toNat_ofNat_of_lt' hlt, Vector.getElem?_eq_getElem hi,
    Option.getD_some] at hk
  exact hk

/-- Setting a key changes the answer for that key only, and for a code of no key nothing. -/
theorem isPressed_set (p : Keypad) (j k : UInt8) (on : Bool) :
    (p.set k on).isPressed j = if j = k ∧ k.toNat < Keypad.size then on else p.isPressed j := by
  simp only [isPressed, set, Vector.getElem?_setIfInBounds]
  by_cases hj : k = j
  · subst hj
    by_cases hk : k.toNat < Keypad.size <;> simp [hk]
  · have hn : k.toNat ≠ j.toNat := fun e => hj (UInt8.toNat_inj.1 e)
    simp [hn, Ne.symm hj]

end Keypad

end ChipEight
