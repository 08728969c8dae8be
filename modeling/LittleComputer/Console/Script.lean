import LittleComputer.Console.Basic

/-! A console that does as a script says, call by call. It can fail anywhere and can raise the
cancel flag while it answers. -/
namespace LittleComputer.Console

/-- What one call does: raise the flag or not, then fail, or give a byte or nothing. -/
structure Reply where
  cancels : Bool := false
  outcome : Except Error (Option Byte) := .ok none

/-- The replies still to be given, for each call on its own. A call whose replies are used up
does nothing. -/
structure Script where
  poll : List Reply := []
  read : List Reply := []
  write : List Reply := []
  flush : List Reply := []
  pump : List Reply := []
  output : Array Byte := #[]

namespace Script

/-- Act out a reply. -/
def act (r : Reply) (s : Script) (cancelled : Bool) :
    EStateM.Result Error (Cancellable Script) (Option Byte) :=
  match r.outcome with
  | .ok b => .ok b ⟨s, cancelled || r.cancels⟩
  | .error e => .error e ⟨s, cancelled || r.cancels⟩

/-- The first reply of a list, and the rest. -/
def takeReply : List Reply → Reply × List Reply
  | [] => ({}, [])
  | r :: rest => (r, rest)

/-- A byte is put out only if its call succeeds. -/
def console : Console (Cancellable Script) where
  pollKey := fun ⟨s, cancelled⟩ =>
    let (r, poll) := takeReply s.poll
    act r { s with poll } cancelled
  readKey := do
    let key ← fun ⟨s, cancelled⟩ =>
      let (r, read) := takeReply s.read
      act r { s with read } cancelled
    match key with
    | some b => return b
    | none => throw ⟨.unexpectedEof, "script ended"⟩
  writeByte b := do
    let _ ← fun ⟨s, cancelled⟩ =>
      let (r, write) := takeReply s.write
      act r { s with write } cancelled
    modify fun ⟨s, cancelled⟩ => ⟨{ s with output := s.output.push b }, cancelled⟩
  flush := do
    let _ ← fun ⟨s, cancelled⟩ =>
      let (r, flush) := takeReply s.flush
      act r { s with flush } cancelled
  pump := do
    let _ ← fun ⟨s, cancelled⟩ =>
      let (r, pump) := takeReply s.pump
      act r { s with pump } cancelled

end Script

end LittleComputer.Console
