import ChipEight.Machine.Command

/-!
# Stop handles

A request to stop is a flag, and the machine is not alone in holding it: handles to it can be
taken, copied and given away, and whoever has one can request a stop through it.

* `StopHandle`: where a flag is kept;
* `Hosted`: a machine, the flags, and the handles that others hold;
* `Hosted.isStopped`, `Hosted.stopThrough`: a flag is read and set through a handle;
* `Operation`, `Operation.perform?`: everything that can be done to a machine and its handles.
-/

namespace ChipEight

/-- A handle to a flag: the place at which it is kept.  All copies of a handle share its flag. -/
structure StopHandle where
  place : Nat
  deriving DecidableEq, Repr

/-- A machine whose flag is shared with the holders of its handles. -/
structure Hosted (η : Type) where
  machine : Machine η
  /-- All flags, by their places. -/
  flags : List Bool
  /-- The handle of the machine itself. -/
  own : StopHandle
  /-- The handles that others hold, in the order in which they came about. -/
  handles : List StopHandle
  /-- The machine finds in its own flag whether a stop is requested. -/
  flag_own : flags[own.place]? = some machine.stopRequested

namespace Hosted

variable {η : Type}

theorem own_lt (s : Hosted η) : s.own.place < s.flags.length :=
  (List.getElem?_eq_some_iff.1 s.flag_own).1

/-- A machine of which nobody else holds a handle. -/
def ofMachine (m : Machine η) : Hosted η where
  machine := m
  flags := [m.stopRequested]
  own := ⟨0⟩
  handles := []
  flag_own := rfl

/-- Whether a stop has been requested through a handle or one of its copies. -/
def isStopped (s : Hosted η) (h : StopHandle) : Bool := (s.flags[h.place]?).getD false

/-- The machine is what a call has left, and so is its flag. -/
def adopt (s : Hosted η) (m : Machine η) : Hosted η :=
  { s with
    machine := m
    flags := s.flags.set s.own.place m.stopRequested
    flag_own := List.getElem?_set_self s.own_lt }

/-- Request a stop through a handle; the machine finds its flag as it is then. -/
def stopThrough (s : Hosted η) (h : StopHandle) : Hosted η :=
  let flags := s.flags.set h.place true
  { s with
    machine := { s.machine with stopRequested := (flags[s.own.place]?).getD false }
    flags := flags
    flag_own := by
      have hlt : s.own.place < (s.flags.set h.place true).length := by
        rw [List.length_set]
        exact s.own_lt
      rw [List.getElem?_eq_getElem hlt]
      rfl }

/-- Somebody holds one handle more. -/
def hold (s : Hosted η) (h : StopHandle) : Hosted η := { s with handles := s.handles ++ [h] }

/-- Somebody holds a handle to a flag that has nothing to do with the machine. -/
def makeHandle (s : Hosted η) : Hosted η :=
  { s with
    flags := s.flags ++ [false]
    handles := s.handles ++ [⟨s.flags.length⟩]
    flag_own := (List.getElem?_append_left s.own_lt).trans s.flag_own }

end Hosted

/-- Something done to a machine or to the handles around it.  Handles are given by their place in
the order in which they came about. -/
inductive Operation (η : Type)
  | command (c : Command η)
  /-- Take a handle from the machine. -/
  | takeHandle
  | copyHandle (k : Nat)
  /-- Make a handle to a flag of its own. -/
  | makeHandle
  | stopThrough (k : Nat)

namespace Operation

variable {η : Type}

/-- Do something; `none` if it is a run that is not over within its fuel, or if there is no such
handle. -/
def perform? (s : Hosted η) : Operation η → Option (Hosted η)
  | command c => (c.perform? s.machine).map fun o => s.adopt o.machine
  | takeHandle => some (s.hold s.own)
  | copyHandle k => (s.handles[k]?).map s.hold
  | makeHandle => some s.makeHandle
  | stopThrough k => (s.handles[k]?).map s.stopThrough

/-- Do one thing after another. -/
def performAll? (s : Hosted η) : List (Operation η) → Option (Hosted η)
  | [] => some s
  | op :: ops =>
      match op.perform? s with
      | none => none
      | some t => performAll? t ops

end Operation

end ChipEight
