import LittleComputer.Main
import LittleComputer.Console.Buffer
import LittleComputer.Console.Script
import LittleComputer.Console.Journal
import LittleComputer.Instruction.Encoding
import LittleComputer.Instruction.Form
import LittleComputer.Json.Parsing
import LittleComputer.Text.Utf8
import LittleComputer.Trap.Packed
import LittleComputer.Proofs.Machine.Stepping
import LittleComputer.Proofs.Machine.FailedStep
import LittleComputer.Proofs.Machine.OpcodeTable
import LittleComputer.Proofs.Machine.Refinement
import LittleComputer.Proofs.Machine.LifeCycle
import LittleComputer.Proofs.Machine.WatchedRun
import LittleComputer.Proofs.Machine.Loops
import LittleComputer.Proofs.Machine.Budget
import LittleComputer.Proofs.Console.Correspondence
import LittleComputer.Proofs.Machine.Correspondence
import LittleComputer.Proofs.Machine.CalmRun
import LittleComputer.Proofs.Machine.RunAgreement
import LittleComputer.Proofs.Machine.Resumption
import LittleComputer.Proofs.Machine.Transcript
import LittleComputer.Proofs.Console.StreamBuffer
import LittleComputer.Proofs.Image.Loading
import LittleComputer.Proofs.Machine.ConditionCode
import LittleComputer.Proofs.Console.Conservation
import LittleComputer.Proofs.Machine.PumpSchedule
import LittleComputer.Proofs.Machine.BoundedRun
import LittleComputer.Proofs.Machine.KeyboardRegisters
import LittleComputer.Proofs.Machine.HiddenStatus
import LittleComputer.Proofs.CommandLine.Loading
import LittleComputer.Proofs.CommandLine.Directory
import LittleComputer.Proofs.CommandLine.Running
import LittleComputer.Proofs.CommandLine.ExitStatus
import LittleComputer.Proofs.CommandLine.Tracing
import LittleComputer.Proofs.Console.StreamOutput
import LittleComputer.Proofs.Machine.Undisturbed
import LittleComputer.Proofs.Machine.Faults
import LittleComputer.Proofs.Machine.StopReason
import LittleComputer.Proofs.Console.Arrivals
import LittleComputer.Proofs.Console.TerminalBuffer
import LittleComputer.Proofs.Machine.Services
import LittleComputer.Proofs.Memory.Strings
import LittleComputer.Proofs.Trap.Packing
import LittleComputer.Proofs.Machine.PrintedStrings
import LittleComputer.Proofs.Word.Bitfields
import LittleComputer.Proofs.Instruction.Layout
import LittleComputer.Proofs.Instruction.RoundTrip
import LittleComputer.Proofs.Word.Offsets
import LittleComputer.Proofs.Machine.Displacement
import LittleComputer.Proofs.Json.Forms
