import ChipEight.Config
import ChipEight.Execute
import ChipEight.Log

/-!
# Machines

A machine is a state together with what surrounds it: the configuration, the status, the random
source, the pending request to stop, the displays and the buzzer.  Displays, buzzer and keys
belong to a host, whose own state is a value of any type `η`.  A display or a buzzer is a function
of what it is told and of the host; it may change the host, request a stop and report.

* `Reply`, `Display`, `Buzzer`: the host's side;
* `Machine`, `Machine.create`;
* `Event`: what happens during a call, `Outcome`: its machine, events and value;
* `Outcome.records`: the reports among the events;
* `Outcome.andThen`: one call after another.
-/

namespace ChipEight

/-- What a display or a buzzer answers. -/
structure Reply (η : Type) where
  host : η
  /-- Whether a stop is requested. -/
  stop : Bool := false
  log : List LogRecord := []

/-- A display is given each picture to show. -/
abbrev Display (η : Type) := Frame → η → Reply η

/-- A buzzer is told after each executed instruction whether the sound timer runs. -/
abbrev Buzzer (η : Type) := Bool → η → Reply η

/-- A machine among its surroundings. -/
@[ext]
structure Machine (η : Type) where
  config : Config
  state : State
  status : Status
  random : RandomSource
  /-- Whether a stop has been requested since the last run ended. -/
  stopRequested : Bool
  displays : List (Display η)
  buzzer : Option (Buzzer η)
  /-- Whether a key is pressed, as the host tells it. -/
  keys : η → UInt8 → Bool
  host : η

/-- What can be observed of a machine during a call, in the order in which it happens. -/
inductive Event
  | log (record : LogRecord)
  /-- A display, given by its place in the order of subscription, is shown a picture. -/
  | shown (display : Nat) (frame : Frame)
  /-- The buzzer is told whether the sound timer runs. -/
  | buzzed (on : Bool)
  deriving DecidableEq

/-- The record of an event that is a report. -/
def Event.record? : Event → Option LogRecord
  | log r => some r
  | _ => none

/-- The machine after a call, what happened during it, and what it returns. -/
structure Outcome (η α : Type) where
  machine : Machine η
  events : Array Event
  value : α

namespace Outcome

variable {η α β γ : Type}

/-- All records of a call, those of displays and buzzer included. -/
def records (o : Outcome η α) : List LogRecord := o.events.toList.filterMap Event.record?

/-- One call after another: the events of both in order, the value of the second. -/
def andThen (o : Outcome η α) (f : Machine η → Outcome η β) : Outcome η β :=
  match o with
  | ⟨m, es, _⟩ =>
      let p := f m
      ⟨p.machine, es ++ p.events, p.value⟩

@[simp] theorem machine_andThen (o : Outcome η α) (f : Machine η → Outcome η β) :
    (o.andThen f).machine = (f o.machine).machine := rfl

@[simp] theorem events_andThen (o : Outcome η α) (f : Machine η → Outcome η β) :
    (o.andThen f).events = o.events ++ (f o.machine).events := rfl

@[simp] theorem value_andThen (o : Outcome η α) (f : Machine η → Outcome η β) :
    (o.andThen f).value = (f o.machine).value := rfl

theorem records_andThen (o : Outcome η α) (f : Machine η → Outcome η β) :
    (o.andThen f).records = o.records ++ (f o.machine).records := by
  simp [records]

theorem andThen_assoc (o : Outcome η α) (f : Machine η → Outcome η β)
    (g : Machine η → Outcome η γ) :
    (o.andThen f).andThen g = o.andThen fun m => (f m).andThen g := by
  simp [andThen, Array.append_assoc]

end Outcome

namespace Machine

variable {η : Type}

/-- A machine at power on, without displays and without a buzzer.  The key of its random source is
made from the seed of its configuration or, if there is none, is `entropy`. -/
def create (config : Config) (entropy : ChaCha.Key) (keys : η → UInt8 → Bool) (host : η) :
    Machine η where
  config := config
  state := State.initial
  status := .ready
  random := RandomSource.ofKey ((config.seed.map RandomSource.key).getD entropy)
  stopRequested := false
  displays := []
  buzzer := none
  keys := keys
  host := host

/-- A seed makes the random source, whatever key there would have been. -/
theorem random_create_of_seed {config : Config} {seed : UInt64} (h : config.seed = some seed)
    (entropy : ChaCha.Key) (keys : η → UInt8 → Bool) (host : η) :
    (create config entropy keys host).random = RandomSource.ofSeed seed := by
  unfold create
  rw [h]
  rfl

/-- What an instruction can ask of the surroundings now. -/
def surroundings (m : Machine η) : Surroundings := ⟨m.config.dialect, m.keys m.host⟩

/-- Nothing happens. -/
def idle (m : Machine η) : Outcome η Unit := ⟨m, #[], ()⟩

/-- One report. -/
def report (m : Machine η) (r : LogRecord) : Outcome η Unit := ⟨m, #[.log r], ()⟩

/-- The machine after its host has answered. -/
def respond (m : Machine η) (r : Reply η) : Machine η :=
  { m with host := r.host, stopRequested := m.stopRequested || r.stop }

/-- The host has answered, with its reports. -/
def accept (m : Machine η) (r : Reply η) : Outcome η Unit :=
  ⟨m.respond r, (r.log.map Event.log).toArray, ()⟩

/-! ### Displays and buzzer -/

/-- Show the picture on some displays, the first of which has place `k`. -/
def showOn (m : Machine η) (k : Nat) : List (Display η) → Outcome η Unit
  | [] => m.idle
  | d :: ds =>
      (Outcome.mk m #[.shown k m.state.frame] ()).andThen fun m =>
        (m.accept (d m.state.frame m.host)).andThen fun m => m.showOn (k + 1) ds

/-- Show the picture on every display, in the order of subscription. -/
def showFrame (m : Machine η) : Outcome η Unit :=
  (m.report (.showing m.displays.length)).andThen fun m => m.showOn 0 m.displays

/-- Tell the buzzer, if there is one, whether the sound timer runs. -/
def soundBuzzer (m : Machine η) : Outcome η Unit :=
  match m.buzzer with
  | none => m.idle
  | some b =>
      let on := decide (m.state.soundTimer ≠ 0)
      (Outcome.mk m #[.buzzed on] ()).andThen fun m => m.accept (b on m.host)

end Machine

end ChipEight
