import LittleComputer.Console.Basic

/-! A console over plain byte streams. Its devices are given by the answers they will make: a
reader's calls deliver a byte each, report the end of input or fail, and a writer's calls take
the byte, refuse it or fail. A call that was merely interrupted is made again. -/
namespace LittleComputer.Console

/-- How one call of a reader ends. -/
inductive ReadAnswer where
  | byte (b : Byte)
  | endOfInput
  | fail (e : Error)

/-- How one call of a writer ends. -/
inductive WriteAnswer where
  | accept
  | refuse
  | fail (e : Error)

/-- The answers still to come, and the output. A reader with no answer left is at the end of
its input, a writer with none left accepts everything. -/
structure Stream where
  reads : List ReadAnswer := []
  writes : List WriteAnswer := []
  flushes : List (Option Error) := []
  output : Array Byte := #[]

namespace Stream

/-- The bytes of the input that have not been read. -/
def unread (s : Stream) : List Byte :=
  s.reads.filterMap fun
    | .byte b => some b
    | _ => none

/-- The outcome of reading, and the answers left after it. -/
def nextByte : List ReadAnswer → Except Error (Option Byte) × List ReadAnswer
  | [] => (.ok none, [])
  | .byte b :: rest => (.ok (some b), rest)
  | .endOfInput :: rest => (.ok none, rest)
  | .fail e :: rest => if e.kind = .interrupted then nextByte rest else (.error e, rest)

/-- The outcome of writing one byte, and the answers left after it. -/
def accepted : List WriteAnswer → Except Error Unit × List WriteAnswer
  | [] => (.ok (), [])
  | .accept :: rest => (.ok (), rest)
  | .refuse :: rest => (.error ⟨.writeZero, "failed to write whole buffer"⟩, rest)
  | .fail e :: rest => if e.kind = .interrupted then accepted rest else (.error e, rest)

/-- One byte of input, or nothing at its end. -/
def next : EStateM Error Stream (Option Byte) := fun s =>
  match nextByte s.reads with
  | (.ok b, reads) => .ok b { s with reads }
  | (.error e, reads) => .error e { s with reads }

/-- A poll waits for the reader and finds no key once the input has ended. A flush that fails
is not tried again. -/
def console : Console Stream where
  pollKey := next
  readKey := do
    match ← next with
    | some b => return b
    | none => throw ⟨.unexpectedEof, "end of input"⟩
  writeByte b := fun ⟨reads, writes, flushes, output⟩ =>
    match accepted writes with
    | (.ok (), writes) => .ok () ⟨reads, writes, flushes, output.push b⟩
    | (.error e, writes) => .error e ⟨reads, writes, flushes, output⟩
  flush := fun s =>
    match s.flushes with
    | [] => .ok () s
    | none :: flushes => .ok () { s with flushes }
    | some e :: flushes => .error e { s with flushes }

end Stream

end LittleComputer.Console
