import LittleComputer.Memory
import LittleComputer.Register
import LittleComputer.Trap.Vector

/-! The service routines. Each is a fixed sequence of console calls, cut short by the first that
fails; memory is only read. -/
namespace LittleComputer.Trap
variable {σ : Type}

/-- What the prompting routine writes first. -/
def promptText : List Byte := asciiBytes "Enter a character: "

/-- What the halting routine writes. -/
def haltText : List Byte := asciiBytes "HALT\n"

inductive Outcome where
  | resume
  | halt
deriving DecidableEq

/-- The low byte of a packed word, then the high one unless it is zero. -/
def packedBytes (w : Word) : List Byte :=
  if highByte w == 0 then [lowByte w] else [lowByte w, highByte w]

/-- Do to the console what leaves the registers alone. -/
def calling {α : Type} (x : EStateM Console.Error σ α) :
    EStateM Console.Error (Registers × σ) α :=
  fun (rs, c) =>
    match x c with
    | .ok a c => .ok a (rs, c)
    | .error e c => .error e (rs, c)

/-- A key goes to R0, and the flags describe it. -/
def receive (key : Byte) : EStateM Console.Error (Registers × σ) Unit :=
  fun (rs, c) => .ok () (rs.setFlagged .r0 key.toUInt16, c)

/-- Run the routine of a vector. The return address is already in R7. -/
def run (con : Console σ) (mem : Memory) :
    TrapVector → EStateM Console.Error (Registers × σ) Outcome
  | .getc => do
    receive (← calling con.readKey)
    calling con.flush
    return .resume
  | .out => do
    calling (con.writeByte (lowByte ((← get).1.get .r0)))
    calling con.flush
    return .resume
  | .puts => do
    calling (con.writeBytes ((mem.stringAt ((← get).1.get .r0)).map lowByte))
    calling con.flush
    return .resume
  | .prompt => do
    calling (con.writeBytes promptText)
    calling con.flush
    let key ← calling con.readKey
    calling (con.writeByte key)
    receive key
    calling con.flush
    return .resume
  | .putsp => do
    calling (con.writeBytes ((mem.stringAt ((← get).1.get .r0)).flatMap packedBytes))
    calling con.flush
    return .resume
  | .halt => do
    calling (con.writeBytes haltText)
    calling con.flush
    return .halt

end LittleComputer.Trap
