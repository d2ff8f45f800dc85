import ChipEight.Dialect

/-!
# Configuration

* `Config`: how fast a machine runs, what seeds its random source, and its dialect;
* `Config.tickNanoseconds`: the time between two ticks.
-/

namespace ChipEight

/-- Ticks per second unless a configuration says otherwise. -/
def defaultTickRate : UInt32 := 60

/-- The choices made when a machine is built. -/
structure Config where
  /-- Ticks per second of a paced run. -/
  tickRate : UInt32 := defaultTickRate
  /-- The seed of the random source; `none` leaves the choice to the host. -/
  seed : Option UInt64 := none
  dialect : Dialect := {}
  deriving DecidableEq, Repr

/-- The whole nanoseconds between two ticks; a rate of zero counts as one tick per second. -/
def Config.tickNanoseconds (c : Config) : Nat := 1000000000 / max c.tickRate.toNat 1

end ChipEight
