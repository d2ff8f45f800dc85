import ChipEight.Machine.Handle
import ChipEight.Proofs.Replies

/-!
# Stop requests

A request to stop is kept until a run, whoever makes it and whatever else is done in between, and
the run spends it: a run that finds a request pending makes no tick, and no run leaves one behind.
The flag therefore tells whether a request has been made since the last run, and everybody who
holds a handle of the machine sees the same.

* `Command.Requests`, `Command.stopRequested_of_perform?`: commands in whose course a stop is
  requested;
* `Machine.runFor_of_stopRequested`, `Machine.runWithin?_of_stopRequested`: runs that find a request
  pending;
* `Operation.origins`, `Hosted.shares`: which handles are handles of the machine;
* `Operation.Requested`: a request has been made since the last run;
* `stop_requests_kept`: the main result.
-/

namespace ChipEight

/-! ### Commands -/

namespace Outcome

variable {η α : Type} {m : Machine η} {o : Outcome η α}

theorem Heard.stopRequested_iff (h : o.Heard m) :
    o.machine.stopRequested = true ↔
      m.stopRequested = true ∨ ∃ r ∈ m.replies m.host o.events.toList, r.stop = true := by
  rw [h.stop, Bool.or_eq_true, List.any_eq_true]

end Outcome

namespace Command

variable {η : Type} {m : Machine η} {c : Command η} {o : Outcome η Answer}

/-- Whether a stop is requested in the course of a command: by the command itself, by the host as it
changes, or by a display or the buzzer when it is called. -/
def Requests (m : Machine η) : Command η → Prop
  | requestStop => True
  | updateHost change => (change m.host).stop = true
  | c => ∃ o, c.perform? m = some o ∧ ∃ r ∈ m.replies m.host o.events.toList, r.stop = true

/-- A command that is no run keeps a request, and it adds those made in its course. -/
theorem stopRequested_of_perform? (hc : c.isRun = false) (h : c.perform? m = some o) :
    o.machine.stopRequested = true ↔ m.stopRequested = true ∨ c.Requests m := by
  -- most commands are heard, and their requests are those of the callbacks
  have hheard : o.Heard m →
      (o.machine.stopRequested = true ↔ m.stopRequested = true ∨
        ∃ o, c.perform? m = some o ∧ ∃ r ∈ m.replies m.host o.events.toList, r.stop = true) := by
    intro ho
    rw [ho.stopRequested_iff, h]
    simp
  cases c with
  | requestStop =>
    cases h
    simp [Requests, silently, Machine.idle, Machine.requestStop]
  | updateHost change =>
    cases h
    simp [Requests, silently, Machine.updateHost, Machine.accept, Machine.respond]
  | runFor n => cases hc
  | start fuel => cases hc
  | loadProgram rom => cases h; exact hheard ((m.heard_loadProgram rom).congr rfl rfl)
  | reset => cases h; exact hheard (m.heard_reset.congr rfl rfl)
  | tick => cases h; exact hheard (m.heard_tick.congr rfl rfl)
  | step n => cases h; exact hheard ((m.heard_step n).congr rfl rfl)
  | addDisplay display =>
    cases h
    simp [Requests, perform?, silently, Machine.idle, Machine.addDisplay]
  | setBuzzer buzzer =>
    cases h
    simp [Requests, perform?, silently, Machine.idle, Machine.setBuzzer]

/-- A run leaves no request behind, however it ends. -/
theorem stopRequested_of_run (hc : c.isRun = true) (h : c.perform? m = some o) :
    o.machine.stopRequested = false := by
  cases c with
  | runFor n => cases h; rfl
  | start fuel =>
    obtain ⟨q, hq, rfl⟩ := Option.map_eq_some_iff.1 h
    rw [← Machine.runFor_of_runWithin? hq le_rfl]
    rfl
  | _ => cases hc

end Command

namespace Machine

variable {η : Type} {m : Machine η}

/-- What a run comes to that finds a request to stop pending. -/
def stoppedRun (m : Machine η) : Outcome η Result :=
  ⟨{ m with stopRequested := false },
    #[.log (.running m.config.tickRate), .log (.stopped 0)], .ok m.status⟩

theorem beginRun_runFor_of_stopRequested (h : m.stopRequested = true) (n : ℕ) :
    m.beginRun.runFor n = m.beginRun :=
  Progress.runFor_of_isOver ((isOver_beginRun m).trans h) n

theorem runFor_of_stopRequested (h : m.stopRequested = true) (n : ℕ) :
    m.runFor n = m.stoppedRun := by
  rw [runFor, beginRun_runFor_of_stopRequested h]
  rfl

theorem runWithin?_of_stopRequested (h : m.stopRequested = true) (fuel : ℕ) :
    m.runWithin? fuel = some m.stoppedRun := by
  have hover : m.beginRun.isOver = true := (isOver_beginRun m).trans h
  simp only [runWithin?, beginRun_runFor_of_stopRequested h, hover, if_true]
  rfl

/-- A run that finds no request pending makes its first tick, if its budget allows one. -/
theorem ticksUntil_isOver_pos (h : m.stopRequested = false) (n : ℕ) :
    0 < m.beginRun.ticksUntil Progress.isOver (n + 1) := by
  have hover : ¬ m.beginRun.isOver = true := by simp [isOver_beginRun, h]
  rw [Progress.ticksUntil, if_neg hover]
  exact Nat.succ_pos _

end Machine

/-! ### Handles -/

namespace Hosted

variable {η : Type} {s : Hosted η} {h : StopHandle}

theorem isStopped_own (s : Hosted η) : s.isStopped s.own = s.machine.stopRequested := by
  rw [isStopped, s.flag_own]
  rfl

/-- For each handle, whether its flag is that of the machine. -/
def shares (s : Hosted η) : List Bool := s.handles.map fun h => decide (h = s.own)

theorem shares_getElem?_eq_some_true_iff {k : ℕ} :
    s.shares[k]? = some true ↔ s.handles[k]? = some s.own := by
  simp [shares]

theorem shares_hold (s : Hosted η) (h : StopHandle) :
    (s.hold h).shares = s.shares ++ [decide (h = s.own)] := List.map_append

/-- The flag of a handle made by itself is a new one. -/
theorem shares_makeHandle (s : Hosted η) : s.makeHandle.shares = s.shares ++ [false] := by
  have hne : StopHandle.mk s.flags.length ≠ s.own := by
    intro he
    have hlt := s.own_lt
    rw [← he] at hlt
    exact Nat.lt_irrefl _ hlt
  have hall : s.makeHandle.shares = s.shares ++ [decide (StopHandle.mk s.flags.length = s.own)] :=
    List.map_append
  rw [hall, decide_eq_false hne]

/-- A request reaches the machine if it is made through a handle of the machine. -/
theorem stopRequested_stopThrough :
    (s.stopThrough h).machine.stopRequested = true ↔
      s.machine.stopRequested = true ∨ h = s.own := by
  show ((s.flags.set h.place true)[s.own.place]?).getD false = true ↔ _
  by_cases hown : h = s.own
  · subst hown
    rw [List.getElem?_set_self s.own_lt]
    simp
  · have hne : h.place ≠ s.own.place := by
      intro hp
      exact hown (congrArg StopHandle.mk hp)
    rw [List.getElem?_set_ne hne, s.flag_own]
    simp [hown]

end Hosted

namespace Operation

variable {η : Type} {s t u : Hosted η} {op : Operation η} {ops : List (Operation η)}

/-- Whether something that is done is a run. -/
def isRun : Operation η → Bool
  | command c => c.isRun
  | _ => false

/-- For each handle there is after an operation, whether it has come from the machine; `os` says so
of those there were before. -/
def originsAfter (os : List Bool) : Operation η → List Bool
  | takeHandle => os ++ [true]
  | copyHandle k => os ++ (os[k]?).toList
  | makeHandle => os ++ [false]
  | _ => os

/-- For each handle that has come about, whether it has been taken from the machine or copied from
one that has. -/
def origins (ops : List (Operation η)) : List Bool := ops.foldl originsAfter []

/-- Whether a stop is requested of the machine in the course of an operation.  Through a handle it
is if that one has come from the machine, as `os` tells. -/
def Requests (os : List Bool) (m : Machine η) : Operation η → Prop
  | command c => c.Requests m
  | stopThrough k => os[k]? = some true
  | _ => False

/-- A stop has been requested in the course of one of the operations, and since then there has been
no run. -/
def Requested (s : Hosted η) (ops : List (Operation η)) : Prop :=
  ∃ before op after t, ops = before ++ op :: after ∧ performAll? s before = some t ∧
    (∀ p ∈ op :: after, p.isRun = false) ∧ op.Requests (origins before) t.machine

/-! ### One operation -/

/-- A handle shares the flag of the machine exactly if it has come from the machine. -/
theorem shares_perform? (h : op.perform? s = some t) : t.shares = originsAfter s.shares op := by
  cases op with
  | command c =>
    obtain ⟨o, -, rfl⟩ := Option.map_eq_some_iff.1 h
    rfl
  | takeHandle =>
    cases h
    rw [Hosted.shares_hold, decide_eq_true rfl]
    rfl
  | copyHandle k =>
    obtain ⟨handle, hk, rfl⟩ := Option.map_eq_some_iff.1 h
    rw [Hosted.shares_hold, originsAfter, Hosted.shares, List.getElem?_map, hk]
    rfl
  | makeHandle =>
    cases h
    exact s.shares_makeHandle
  | stopThrough k =>
    obtain ⟨handle, -, rfl⟩ := Option.map_eq_some_iff.1 h
    rfl

/-- An operation that is no run keeps a request, and it adds those made in its course. -/
theorem stopRequested_perform? (hop : op.isRun = false) (h : op.perform? s = some t) :
    t.machine.stopRequested = true ↔
      s.machine.stopRequested = true ∨ op.Requests s.shares s.machine := by
  cases op with
  | command c =>
    obtain ⟨o, ho, rfl⟩ := Option.map_eq_some_iff.1 h
    exact Command.stopRequested_of_perform? hop ho
  | stopThrough k =>
    obtain ⟨handle, hk, rfl⟩ := Option.map_eq_some_iff.1 h
    rw [Hosted.stopRequested_stopThrough, Requests, Hosted.shares_getElem?_eq_some_true_iff, hk,
      Option.some_inj]
  | takeHandle => cases h; simp [Requests, Hosted.hold]
  | makeHandle => cases h; simp [Requests, Hosted.makeHandle]
  | copyHandle k =>
    obtain ⟨handle, -, rfl⟩ := Option.map_eq_some_iff.1 h
    simp [Requests, Hosted.hold]

theorem stopRequested_run (hop : op.isRun = true) (h : op.perform? s = some t) :
    t.machine.stopRequested = false := by
  cases op with
  | command c =>
    obtain ⟨o, ho, rfl⟩ := Option.map_eq_some_iff.1 h
    exact Command.stopRequested_of_run hop ho
  | _ => cases hop

/-! ### One more operation -/

theorem performAll?_concat_eq_some_iff :
    performAll? s (ops ++ [op]) = some t ↔
      ∃ u, performAll? s ops = some u ∧ op.perform? u = some t := by
  induction ops generalizing s with
  | nil => cases h : op.perform? s <;> simp [performAll?, h]
  | cons p ops ih =>
    rw [List.cons_append, performAll?, performAll?]
    cases p.perform? s with
    | none => simp
    | some u => exact ih

theorem origins_concat (ops : List (Operation η)) (op : Operation η) :
    origins (ops ++ [op]) = originsAfter (origins ops) op := by
  simp [origins]

theorem requested_concat_iff (h : performAll? s ops = some t) :
    Requested s (ops ++ [op]) ↔
      op.isRun = false ∧ (Requested s ops ∨ op.Requests (origins ops) t.machine) := by
  constructor
  · rintro ⟨before, p, after, u, hsplit, hu, hruns, hp⟩
    rcases List.eq_nil_or_concat after with rfl | ⟨rest, last, rfl⟩
    · obtain ⟨rfl, hlast⟩ := List.append_inj' hsplit rfl
      obtain rfl : op = p := by simpa using hlast
      obtain rfl : t = u := Option.some.inj (h.symm.trans hu)
      exact ⟨hruns op List.mem_cons_self, Or.inr hp⟩
    · rw [List.concat_eq_append] at hsplit hruns
      rw [← List.cons_append, ← List.append_assoc] at hsplit
      obtain ⟨rfl, hlast⟩ := List.append_inj' hsplit rfl
      obtain rfl : op = last := by simpa using hlast
      refine ⟨hruns op (by simp), Or.inl ⟨before, p, rest, u, rfl, hu, fun q hq => ?_, hp⟩⟩
      exact hruns q (by rw [← List.cons_append]; exact List.mem_append_left _ hq)
  · rintro ⟨hop, ⟨before, p, after, u, rfl, hu, hruns, hp⟩ | hreq⟩
    · refine ⟨before, p, after ++ [op], u, by simp, hu, fun q hq => ?_, hp⟩
      rw [← List.cons_append] at hq
      rcases List.mem_append.1 hq with hq | hq
      · exact hruns q hq
      · rw [List.mem_singleton.1 hq]
        exact hop
    · exact ⟨ops, op, [], t, rfl, h, by simpa using hop, hreq⟩

/-! ### All operations -/

/-- If no request is pending at first, the flag tells whether one has been made since the last run,
and a handle shares it exactly if it has come from the machine. -/
theorem stopRequested_performAll? {m : Machine η} (hm : m.stopRequested = false)
    (h : performAll? (.ofMachine m) ops = some s) :
    s.shares = origins ops ∧
      (s.machine.stopRequested = true ↔ Requested (.ofMachine m) ops) := by
  -- by induction on the operations, of which the last one is taken off
  induction ops using List.reverseRecOn generalizing s with
  | nil =>
    cases h
    refine ⟨rfl, ?_⟩
    simp [Hosted.ofMachine, hm, Requested]
  | append_singleton ops op ih =>
    obtain ⟨u, hu, hop⟩ := performAll?_concat_eq_some_iff.1 h
    obtain ⟨hshares, hflag⟩ := ih hu
    refine ⟨by rw [shares_perform? hop, hshares, origins_concat], ?_⟩
    rw [requested_concat_iff hu]
    cases hrun : op.isRun with
    | true => simp [stopRequested_run hrun hop]
    | false => rw [stopRequested_perform? hrun hop, hshares, hflag]; simp

end Operation

/-- **Requests to stop are kept until a run and spent by it.**  Whatever is done to a machine from
power on, and to the handles taken from it: the flag is set if and only if a stop has been requested
since the last run, by a command, by the host, by a display or the buzzer when they were called, or
through a handle that has come from the machine; and all these handles read what the machine reads.
No operation but a run clears it.  A run that finds it set makes no tick and no callback and answers
with the status, even if that is a fault.  After a run, however it ends, it is not set, and the next
run makes its first tick. -/
theorem stop_requests_kept {η : Type} (config : Config) (entropy : ChaCha.Key)
    (keys : η → UInt8 → Bool) (host : η) (ops : List (Operation η)) (s : Hosted η)
    (h : Operation.performAll? (.ofMachine (Machine.create config entropy keys host)) ops =
      some s) :
    (s.machine.stopRequested = true ↔
        Operation.Requested (.ofMachine (Machine.create config entropy keys host)) ops) ∧
      (∀ k : ℕ, (Operation.origins ops)[k]? = some true →
        ∃ handle, s.handles[k]? = some handle ∧
          s.isStopped handle = s.machine.stopRequested) ∧
      (∀ (op : Operation η) (t : Hosted η), op.isRun = false → op.perform? s = some t →
        s.machine.stopRequested = true → t.machine.stopRequested = true) ∧
      (s.machine.stopRequested = true → ∀ n,
        let stopped : Outcome η Machine.Result :=
          ⟨{ s.machine with stopRequested := false },
            #[.log (.running s.machine.config.tickRate), .log (.stopped 0)],
            .ok s.machine.status⟩
        s.machine.runFor n = stopped ∧ s.machine.runWithin? n = some stopped) ∧
      ∀ (op : Operation η) (t : Hosted η), op.isRun = true → op.perform? s = some t →
        t.machine.stopRequested = false ∧
          ∀ n, 0 < t.machine.beginRun.ticksUntil Progress.isOver (n + 1) := by
  obtain ⟨hshares, hflag⟩ := Operation.stopRequested_performAll? rfl h
  refine ⟨hflag, fun k hk => ?_, fun op t hop ht hs => ?_, fun hs n => ?_, fun op t hop ht => ?_⟩
  · rw [← hshares] at hk
    exact ⟨s.own, Hosted.shares_getElem?_eq_some_true_iff.1 hk, s.isStopped_own⟩
  · exact (Operation.stopRequested_perform? hop ht).2 (Or.inl hs)
  · exact ⟨Machine.runFor_of_stopRequested hs n, Machine.runWithin?_of_stopRequested hs n⟩
  · have hspent := Operation.stopRequested_run hop ht
    exact ⟨hspent, Machine.ticksUntil_isOver_pos hspent⟩

/-- A display that asks for a stop whenever it is shown a picture. -/
def stopper : Display Unit := fun _ h => { host := h, stop := true }

/-- A handle, a copy of it and a handle of its own; a run after a reset at which the display asks
for a stop; a fault; and a request through each of the last two handles. -/
def stopHistory : List (Operation Unit) :=
  [.takeHandle, .copyHandle 0, .makeHandle, .command (.addDisplay stopper), .command .reset,
    .command (.runFor 3), .command .tick, .stopThrough 2, .stopThrough 1]

/-- The run spends the request made by the display.  The request made through the copy is pending
on the faulted machine, and the first handle sees it; the next run answers with the status. -/
theorem stop_requests_kept_faulted :
    ∃ s, Operation.performAll? (.ofMachine (Machine.create {} ChaCha.zeroKey (fun _ _ => false) ()))
        stopHistory = some s ∧
      Operation.Requested (.ofMachine (Machine.create {} ChaCha.zeroKey (fun _ _ => false) ()))
        stopHistory ∧
      (∃ handle, s.handles[0]? = some handle ∧ s.isStopped handle = true) ∧
      (s.machine.runFor 3).value = .ok (.faulted (.unrecognizedOpcode 0)) ∧
      ∃ t, Operation.perform? s (.command (.runFor 3)) = some t ∧
        t.machine.stopRequested = false := by
  have hend : (Operation.performAll?
      (.ofMachine (Machine.create {} ChaCha.zeroKey (fun _ _ => false) ())) stopHistory).map
        (fun s => (s.machine.stopRequested, s.machine.status)) =
        some (true, .faulted (.unrecognizedOpcode 0)) := by
    decide +kernel
  obtain ⟨s, hs, he⟩ := Option.map_eq_some_iff.1 hend
  obtain ⟨hstop, hstatus⟩ := Prod.mk.inj he
  obtain ⟨hflag, hhandles, -, hrun, hafter⟩ := stop_requests_kept _ _ _ _ stopHistory s hs
  obtain ⟨handle, hhandle, hsees⟩ := hhandles 0 rfl
  refine ⟨s, hs, hflag.1 hstop, ⟨handle, hhandle, hsees.trans hstop⟩, ?_, _, rfl, ?_⟩
  · rw [(hrun hstop 3).1, hstatus]
  · exact (hafter (.command (.runFor 3)) _ rfl rfl).1

end ChipEight
