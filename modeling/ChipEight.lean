import ChipEight.Main
import ChipEight.Proofs.Execution
import ChipEight.Proofs.Tick
import ChipEight.Proofs.Faults
import ChipEight.Proofs.Runs
import ChipEight.Proofs.Bounds
import ChipEight.Proofs.Callbacks
import ChipEight.Proofs.Nesting
import ChipEight.Proofs.Displays
import ChipEight.Proofs.Halting
import ChipEight.Proofs.Buzzer
import ChipEight.Proofs.RandomWords
import ChipEight.Proofs.Resets
import ChipEight.Proofs.Footprint
import ChipEight.Proofs.Stepping
import ChipEight.Proofs.StackLimit
import ChipEight.Machine.Handle
import ChipEight.Proofs.Replies
import ChipEight.Proofs.StopRequests
import ChipEight.Proofs.Surroundings
import ChipEight.Proofs.Dialects
import ChipEight.Proofs.Drawing
import ChipEight.Proofs.Unstopped
import ChipEight.Proofs.Console
import ChipEight.Proofs.Bells
import ChipEight.Proofs.Endings
import ChipEight.Proofs.Overlays
import ChipEight.Checked
import ChipEight.Proofs.Flags
import ChipEight.Proofs.Storage
import ChipEight.Proofs.CheckedAccess
import ChipEight.Proofs.CheckedDrawing
import ChipEight.Proofs.Checks
import ChipEight.Proofs.Transfers
import ChipEight.Proofs.Terminals
import ChipEight.Proofs.Glyphs
import ChipEight.Proofs.Keys
import ChipEight.Proofs.HeldKeys
import ChipEight.Proofs.SessionBells
import ChipEight.Proofs.Reports
import ChipEight.Proofs.RunReports
import ChipEight.Proofs.Accounts
