import ChipEight.Main
import ChipEight.Program
import ChipEight.Vm.History
import ChipEight.Proofs.Execution
import ChipEight.Proofs.Cycle
import ChipEight.Proofs.Failure
import ChipEight.Proofs.FaultTable
import ChipEight.Proofs.Bounds
import ChipEight.Proofs.Frame
import ChipEight.Proofs.Calls
import ChipEight.Proofs.Loading
import ChipEight.Proofs.Clockwork
import ChipEight.Proofs.Assembly
import ChipEight.Proofs.AwaitKey
import ChipEight.Proofs.RunState
import ChipEight.Proofs.Display
import ChipEight.Proofs.KeyHistory
import ChipEight.Proofs.Moves
import ChipEight.Proofs.Orderly
import ChipEight.Proofs.Scheduling
import ChipEight.Proofs.RunControl
import ChipEight.Proofs.Restart
import ChipEight.Proofs.Disassembly
import ChipEight.Proofs.Sprites
import ChipEight.Proofs.RunReport
import ChipEight.Proofs.Arithmetic
import ChipEight.Proofs.Transfer
import ChipEight.Proofs.Drawing
import ChipEight.Proofs.Trace
import ChipEight.Proofs.FaultAddress
import ChipEight.Proofs.Glyphs
import ChipEight.Proofs.Numerals
import ChipEight.Proofs.Arguments
import ChipEight.Proofs.Countdown
import ChipEight.Proofs.Runs
import ChipEight.Proofs.LastWrite
import ChipEight.Proofs.Views
