import LittleComputer.Console.Basic

/-! A console in memory: the keys are known beforehand and the output is kept. -/
namespace LittleComputer.Console

structure Buffer where
  keys : List Byte := []
  output : Array Byte := #[]

namespace Buffer

/-- The next key, if any is left. -/
def next : EStateM Error Buffer (Option Byte)
  | ⟨[], output⟩ => .ok none ⟨[], output⟩
  | ⟨k :: keys, output⟩ => .ok (some k) ⟨keys, output⟩

/-- A buffer never waits: reading with no key left fails. -/
def console : Console Buffer where
  pollKey := next
  readKey := do
    match ← next with
    | some k => return k
    | none => throw ⟨.unexpectedEof, "no more scripted input"⟩
  writeByte b := fun ⟨keys, output⟩ => .ok () ⟨keys, output.push b⟩
  flush := pure ()

end Buffer

end LittleComputer.Console
