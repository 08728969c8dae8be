import LittleComputer.Word

/-! The console: keyboard and display as the machine sees them. A console is given by what each
of its calls does to a state of its own, so that one machine runs on any of them. -/
namespace LittleComputer

namespace Console

/-- The kinds of failure that callers tell apart. -/
inductive ErrorKind where
  | other
  | interrupted
  | unexpectedEof
  | brokenPipe
  | wouldBlock
  | permissionDenied
  | writeZero
deriving DecidableEq

structure Error where
  kind : ErrorKind
  message : String
deriving DecidableEq

end Console

/-- The calls of a console over the states `σ`. Any call may fail, and a failing call may
change the state. -/
structure Console (σ : Type) where
  /-- A waiting key, if there is one. -/
  pollKey : EStateM Console.Error σ (Option Byte)
  /-- The next key, however long it takes to come. -/
  readKey : EStateM Console.Error σ Byte
  writeByte : Byte → EStateM Console.Error σ Unit
  flush : EStateM Console.Error σ Unit
  /-- Let the device look around while a program runs that does not touch it. -/
  pump : EStateM Console.Error σ Unit := pure ()

namespace Console
variable {σ : Type}

/-- Write bytes in order, up to the first that fails. -/
def writeBytes (con : Console σ) (bytes : List Byte) : EStateM Error σ Unit :=
  bytes.forM con.writeByte

end Console

/-- A console's state beside the flag that asks a run to stop. The console, the one who watches
the run and the one who started it may all raise the flag. -/
structure Cancellable (κ : Type) where
  console : κ
  cancelled : Bool := false

/-- Do to the console what leaves the flag alone. -/
def Cancellable.lift {κ α : Type} (x : EStateM Console.Error κ α) :
    EStateM Console.Error (Cancellable κ) α :=
  fun ⟨c, cancelled⟩ =>
    match x c with
    | .ok a c => .ok a ⟨c, cancelled⟩
    | .error e c => .error e ⟨c, cancelled⟩

/-- A console that does not know of the flag, used beside it. -/
def Console.beside {κ : Type} (con : Console κ) : Console (Cancellable κ) where
  pollKey := Cancellable.lift con.pollKey
  readKey := Cancellable.lift con.readKey
  writeByte b := Cancellable.lift (con.writeByte b)
  flush := Cancellable.lift con.flush
  pump := Cancellable.lift con.pump

end LittleComputer
