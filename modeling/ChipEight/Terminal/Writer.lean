import ChipEight.Machine.Basic
import ChipEight.Terminal.Screen

/-!
# Terminal displays

A terminal display writes each picture to a byte stream: the escape sequence that moves the
cursor home, then the text of the picture.  The stream may have room for a limited number of
bytes; a write that finds too little room puts in what fits and fails.  A failure is reported and
goes no further.

* `Writer`, `Writer.write`;
* `Writer.writeFrame`, `Writer.present`: one picture;
* `Display.toWriter`: the display of a host that holds a writer.
-/

namespace ChipEight

/-- A byte stream as its reader sees it. -/
structure Writer where
  /-- The bytes written so far. -/
  accepted : ByteArray := .empty
  /-- The number of bytes that the stream takes in all; `none` for no bound. -/
  room : Option Nat := none
  /-- Whether the stream refuses to be flushed. -/
  refusesFlush : Bool := false

/-- Why a picture could not be written. -/
inductive WriteFailure
  | closed
  | flushRefused
  deriving DecidableEq, Repr

/-- The wording of a failure. -/
def WriteFailure.message : WriteFailure → String
  | closed => "closed"
  | flushRefused => "flush refused"

namespace Writer

/-- Write bytes, as many as there is room for, and tell whether that was all of them. -/
def write (w : Writer) (bs : ByteArray) : Writer × Bool :=
  match w with
  | ⟨accepted, none, refuses⟩ => (⟨accepted ++ bs, none, refuses⟩, true)
  | ⟨accepted, some room, refuses⟩ =>
      let left := room - accepted.size
      (⟨accepted ++ bs.extract 0 left, some room, refuses⟩, decide (bs.size ≤ left))

/-- The escape sequence that moves the cursor to the upper left corner. -/
def homeSequence : String := "\x1b[H"

/-- Write a picture over the one before. -/
def writeFrame (w : Writer) (f : Frame) : Writer × Option WriteFailure :=
  let (w, all) := w.write (homeSequence ++ f.text).toUTF8
  (w, if all then (if w.refusesFlush then some .flushRefused else none) else some .closed)

/-- Write a picture and report what went wrong. -/
def present (w : Writer) (f : Frame) : Writer × List LogRecord :=
  let (w, failure) := w.writeFrame f
  (w, .rendering :: failure.toList.map fun e => .renderFailed e.message)

/-- The writer once a reader has taken what was written, with the room that is left. -/
def drained (w : Writer) : Writer :=
  { w with accepted := .empty, room := w.room.map (· - w.accepted.size) }

end Writer

/-- A terminal display whose writer is kept by the host. -/
def Display.toWriter {η : Type} (get : η → Writer) (put : Writer → η → η) : Display η :=
  fun f h =>
    let (w, log) := (get h).present f
    { host := put w h, log := log }

end ChipEight
