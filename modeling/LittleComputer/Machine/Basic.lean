import LittleComputer.Instruction.Decoding
import LittleComputer.Memory
import LittleComputer.Register

/-! The machine: registers, memory, whether it still runs, and how many instructions it has
executed. -/
namespace LittleComputer
namespace Machine

inductive State where
  | running
  /-- The halting service has been asked for. -/
  | halted
  /-- A word that is no instruction was fetched. -/
  | faulted
deriving DecidableEq

instance : Named State where
  all := [.running, .halted, .faulted]
  name | .running => "Running" | .halted => "Halted" | .faulted => "Faulted"

instance : Outlined State := ⟨fun s => .leaf (Named.name s)⟩

instance : JsonForm State := JsonForm.ofNamed

/-- Why an instruction could not be executed. -/
inductive Error where
  | notRunning (state : State)
  | fault (pc word : Word) (cause : DecodeError)
  | console (cause : Console.Error)
deriving DecidableEq

def Error.message : Error → String
  | .notRunning state => "CPU not running: " ++ Named.name state
  | .fault pc word cause =>
    "fault at 0x" ++ hex 4 pc.toNat ++ " (instruction 0x" ++ hex 4 word.toNat ++ "): "
      ++ cause.message
  | .console cause => "console I/O error: " ++ cause.message

end Machine

structure Machine where
  regs : Registers := .initial
  mem : Memory := {}
  state : Machine.State := .running
  cycles : UInt64 := 0

namespace Machine

/-- A machine at power-on, with nothing in memory. -/
def initial : Machine := {}

def isRunning (m : Machine) : Bool := m.state == .running

instance : Outlined Machine :=
  ⟨fun m => .record "Cpu"
    [("state", Outlined.outline m.state), ("cycles", Outlined.outline m.cycles),
      ("regs", Outlined.outline m.regs)]⟩

end Machine

end LittleComputer
