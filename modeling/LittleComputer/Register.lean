import LittleComputer.Word
import LittleComputer.Named
import LittleComputer.Outline

/-! The register file: eight general registers, the program counter, and the condition
register, which holds exactly one of the flags P, Z and N. -/
namespace LittleComputer

/-- A general register, R0 to R7. -/
structure Reg where
  index : Fin 8
deriving DecidableEq

namespace Reg

def r0 : Reg := ⟨0⟩

def r7 : Reg := ⟨7⟩

/-- The register named by the low three bits of a word. -/
def ofBits (w : Word) : Reg := ⟨⟨w.toNat % 8, Nat.mod_lt _ (by decide)⟩⟩

/-- The name used in listings, such as `R3`. -/
def mnemonic (r : Reg) : String := "R" ++ r.index.val.repr

instance : Outlined Reg := ⟨fun r => .wrapped "Reg" [.nat r.index.val]⟩

end Reg

/-- A condition flag. -/
inductive Flag where
  | pos
  | zro
  | neg
deriving DecidableEq

namespace Flag

/-- The flag's bit in the condition register, which is also its bit in a branch mask. -/
def bits : Flag → Word
  | .pos => 1
  | .zro => 2
  | .neg => 4

/-- The sign of a word read as a signed number. -/
def ofWord (w : Word) : Flag :=
  if w == 0 then .zro else if w >>> 15 == 1 then .neg else .pos

instance : Named Flag where
  all := [.pos, .zro, .neg]
  name | .pos => "Pos" | .zro => "Zro" | .neg => "Neg"

instance : Outlined Flag := ⟨fun f => .leaf (Named.name f)⟩

end Flag

/-- The address the program counter starts at. -/
def startAddress : Word := 0x3000

structure Registers where
  gpr : Vector Word 8 := Vector.replicate 8 0
  pc : Word := startAddress
  cond : Flag := .zro
deriving DecidableEq

namespace Registers

/-- The register file at power-on. -/
def initial : Registers := {}

def get (rs : Registers) (r : Reg) : Word := rs.gpr.get r.index

/-- Write a register and leave the flags alone. -/
def set (rs : Registers) (r : Reg) (v : Word) : Registers :=
  { rs with gpr := rs.gpr.set r.index v }

/-- Let the flags describe the present content of a register. -/
def refreshFlag (rs : Registers) (r : Reg) : Registers :=
  { rs with cond := Flag.ofWord (rs.get r) }

/-- Write a register and let the flags describe what was written. -/
def setFlagged (rs : Registers) (r : Reg) (v : Word) : Registers :=
  (rs.set r v).refreshFlag r

/-- Move the program counter to the next word, round the end of memory. -/
def advance (rs : Registers) : Registers := { rs with pc := rs.pc + 1 }

/-- Whether the set flag is among those of a branch mask. -/
def selectedBy (rs : Registers) (nzp : Word) : Bool := nzp &&& rs.cond.bits != 0

instance : Outlined Registers :=
  ⟨fun rs => .record "Registers"
    [("gpr", Outlined.outline rs.gpr), ("pc", Outlined.outline rs.pc),
      ("cond", Outlined.outline rs.cond)]⟩

end Registers

end LittleComputer
