/-!
# Decimal numerals

The numerals that options accept: at least one ASCII digit, with a sign in front or without.

* `Numeral.digits?`: digits only;
* `Numeral.unsigned?`: a plus sign may precede;
* `Numeral.signed?`: a plus or a minus sign may precede.
-/

namespace ChipEight.Numeral

/-- The value of a digit. -/
def digit? (c : Char) : Option Nat := if c.isDigit then some (c.toNat - '0'.toNat) else none

/-- The value of a sequence of digits that continues a numeral of value `n`. -/
def continue? (n : Nat) : List Char → Option Nat
  | [] => some n
  | c :: cs =>
      match digit? c with
      | none => none
      | some d => continue? (10 * n + d) cs

/-- The value of one or more digits. -/
def digits? : List Char → Option Nat
  | [] => none
  | cs => continue? 0 cs

/-- The value of digits after an optional plus sign, if it is at most `bound`. -/
def unsigned? (bound : Nat) (s : String) : Option Nat :=
  let value? := match s.toList with
    | '+' :: cs => digits? cs
    | cs => digits? cs
  value?.filter (· ≤ bound)

/-- The value of digits after an optional sign, if it lies between zero and `bound`. -/
def signed? (bound : Nat) (s : String) : Option Nat :=
  match s.toList with
  | '-' :: cs => (digits? cs).filter (· = 0)
  | _ => unsigned? bound s

end ChipEight.Numeral
