import LittleComputer.Console.Basic

/-! A journal of the calls made on a console, and of how each ended. -/
namespace LittleComputer.Console

inductive Call where
  | pollKey
  | readKey
  | writeByte (b : Byte)
  | flush
  | pump
deriving DecidableEq

/-- A call that was made, with the error it ended in if it failed. -/
structure Entry where
  call : Call
  failure : Option Error
deriving DecidableEq

/-- A console's state with the calls made so far, latest first. -/
structure Journaled (κ : Type) where
  console : κ
  entries : List Entry := []

namespace Journaled
variable {κ α : Type}

/-- Make a call and note it down. -/
def noting (call : Call) (x : EStateM Error (Cancellable κ) α) :
    EStateM Error (Cancellable (Journaled κ)) α :=
  fun ⟨⟨c, entries⟩, cancelled⟩ =>
    match x ⟨c, cancelled⟩ with
    | .ok a ⟨c, cancelled⟩ => .ok a ⟨⟨c, ⟨call, none⟩ :: entries⟩, cancelled⟩
    | .error e ⟨c, cancelled⟩ => .error e ⟨⟨c, ⟨call, some e⟩ :: entries⟩, cancelled⟩

end Journaled

/-- The same console, with its calls noted down. -/
def journaled {κ : Type} (con : Console (Cancellable κ)) : Console (Cancellable (Journaled κ)) where
  pollKey := Journaled.noting .pollKey con.pollKey
  readKey := Journaled.noting .readKey con.readKey
  writeByte b := Journaled.noting (.writeByte b) (con.writeByte b)
  flush := Journaled.noting .flush con.flush
  pump := Journaled.noting .pump con.pump

end LittleComputer.Console
