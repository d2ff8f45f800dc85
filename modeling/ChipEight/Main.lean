import ChipEight.CommandLine.Session

/-!
# The program

Reads the file that the arguments name, then makes the ticks of the session one by one at the
configured rate, passing on what each has written.
-/

namespace ChipEight.Program

/-- The number and the description of an error of the system. -/
def readError : IO.Error → ReadError
  | .noFileOrDirectory _ code details => ⟨details, code.toNat⟩
  | .inappropriateType _ code details => ⟨details, code.toNat⟩
  | .permissionDenied _ code details => ⟨details, code.toNat⟩
  | .invalidArgument _ code details => ⟨details, code.toNat⟩
  | .illegalOperation code details => ⟨details, code.toNat⟩
  | .otherError code details => ⟨details, code.toNat⟩
  | e => ⟨toString e, 0⟩

/-- The contents of a file. -/
def readFile (path : String) : IO (Except ReadError (List UInt8)) := do
  try
    let handle ← IO.FS.Handle.mk path .read
    return .ok (← handle.readBinToEnd).toList
  catch e => return .error (readError e)

/-- Pass on what has been written; a stream that refuses it is left alone. -/
def emit (stdout : ByteArray) (stderr : String) : IO Unit := do
  let out ← IO.getStdout
  let err ← IO.getStderr
  try
    if stdout.size ≠ 0 then
      out.write stdout
      out.flush
    if stderr ≠ "" then
      err.putStr stderr
      err.flush
  catch _ => return

/-- Wait until the next tick is due.  The state is the time at which the last one was, in
nanoseconds; ticks that are late are not made up for. -/
def wait (c : Config) : StateT Nat IO Unit := do
  let due := (← get) + c.tickNanoseconds
  let now ← IO.monoNanosNow
  if now < due then
    IO.sleep (UInt32.ofNat ((due - now) / 1000000))
    set due
  else
    set now

/-- Ticks at the rate of the machine until the run is over. -/
partial def pace (l : Logger) (bound : Option Nat) (s : Session) : StateT Nat IO Session := do
  let s ← s.follow l bound (fun w => emit w.stdout w.stderr) wait 1000000
  if s.isOver bound then return s else pace l bound s

/-- A key that the system chooses. -/
def entropy : IO ChaCha.Key := do
  let bytes ← IO.getRandomBytes 32
  return Vector.ofFn fun k : Fin 8 =>
    (List.range 4).foldl (fun w j => w * 256 + (bytes.toList[4 * k.val + j]?.getD 0).toUInt32) 0

/-- Faults are reported on standard error, and nothing else is. -/
def logger : Logger := .upTo (some .error)

/-- Pass on the rest of what a session has written and give its exit code. -/
def conclude : Ending → IO UInt32
  | .exited code stdout stderr => do
      emit stdout stderr
      return UInt32.ofNat code
  | .usage .helpRequested => do
      IO.println (UsageError.helpRequested.message ++ "\n\n" ++ usage)
      return 0
  | .usage e => do
      IO.eprintln ("error: " ++ e.message ++ "\n\n" ++ usage)
      return 2

end ChipEight.Program

open ChipEight in
/-- Runs the program that the arguments name. -/
def main (words : List String) : IO UInt32 := do
  match Options.parse words with
  | .error e => Program.conclude (.usage e)
  | .ok options =>
      match ← Session.bootReading options Program.readFile (← Program.entropy) with
      | .error e => Program.conclude (Session.abort e)
      | .ok o =>
          let s := Session.start Program.logger o
          Program.emit s.output.stdout s.output.stderr
          let ticks := Program.pace Program.logger options.maxTicks s.drained
          let (s, _) ← ticks.run (← IO.monoNanosNow)
          Program.conclude (s.close Program.logger)
