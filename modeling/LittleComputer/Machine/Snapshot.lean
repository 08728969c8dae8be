import LittleComputer.Machine.Basic
import LittleComputer.Json.Form
import LittleComputer.Json.Printing

/-! Snapshots: all of a machine but its memory, in a form that can be stored. -/
namespace LittleComputer

structure Snapshot where
  registers : Registers
  state : Machine.State
  cycles : UInt64
deriving DecidableEq

namespace Snapshot

instance : JsonForm Snapshot where
  toJson s := .obj [("registers", JsonForm.toJson s.registers), ("state", JsonForm.toJson s.state),
    ("cycles", JsonForm.toJson s.cycles)]
  ofJson? v := do
    match ← JsonForm.parts? ["registers", "state", "cycles"] v with
    | [registers, state, cycles] =>
      return ⟨← JsonForm.ofJson? registers, ← JsonForm.ofJson? state, ← JsonForm.ofJson? cycles⟩
    | _ => none

instance : Outlined Snapshot :=
  ⟨fun s => .record "Snapshot"
    [("registers", Outlined.outline s.registers), ("state", Outlined.outline s.state),
      ("cycles", Outlined.outline s.cycles)]⟩

end Snapshot

def Machine.snapshot (m : Machine) : Snapshot := ⟨m.regs, m.state, m.cycles⟩

end LittleComputer
