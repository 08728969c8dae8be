import LittleComputer.Register
import LittleComputer.Trap.Vector

/-! Instructions. The type of registers is a parameter: the machine executes instructions whose
registers are among R0 to R7, while a stored instruction may carry any register number. -/
namespace LittleComputer

/-- The operations, in the order of their codes. -/
inductive Opcode where
  | br | add | ld | st | jsr | and | ldr | str | rti | not | ldi | sti | jmp | res | lea | trap
deriving DecidableEq

namespace Opcode

/-- The top four bits of an instruction word. -/
def code : Opcode → Word
  | .br => 0x0 | .add => 0x1 | .ld => 0x2 | .st => 0x3
  | .jsr => 0x4 | .and => 0x5 | .ldr => 0x6 | .str => 0x7
  | .rti => 0x8 | .not => 0x9 | .ldi => 0xA | .sti => 0xB
  | .jmp => 0xC | .res => 0xD | .lea => 0xE | .trap => 0xF

def ofWord (w : Word) : Opcode :=
  match w >>> 12 with
  | 0x0 => .br | 0x1 => .add | 0x2 => .ld | 0x3 => .st
  | 0x4 => .jsr | 0x5 => .and | 0x6 => .ldr | 0x7 => .str
  | 0x8 => .rti | 0x9 => .not | 0xA => .ldi | 0xB => .sti
  | 0xC => .jmp | 0xD => .res | 0xE => .lea | _ => .trap

instance : Named Opcode where
  all := [.br, .add, .ld, .st, .jsr, .and, .ldr, .str, .rti, .not, .ldi, .sti, .jmp, .res,
    .lea, .trap]
  name
    | .br => "Br" | .add => "Add" | .ld => "Ld" | .st => "St"
    | .jsr => "Jsr" | .and => "And" | .ldr => "Ldr" | .str => "Str"
    | .rti => "Rti" | .not => "Not" | .ldi => "Ldi" | .sti => "Sti"
    | .jmp => "Jmp" | .res => "Res" | .lea => "Lea" | .trap => "Trap"

instance : Outlined Opcode := ⟨fun o => .leaf (Named.name o)⟩

instance : JsonForm Opcode := JsonForm.ofNamed

end Opcode

/-- The second source of an operation: a register, or a number in the instruction itself. -/
inductive Operand (ρ : Type) where
  | reg (r : ρ)
  | imm (v : Word)
deriving DecidableEq

/-- Offsets and immediate numbers are already widened to a word. -/
inductive Instruction (ρ : Type) where
  | add (dr sr1 : ρ) (op2 : Operand ρ)
  | and (dr sr1 : ρ) (op2 : Operand ρ)
  | not (dr sr : ρ)
  | ld (dr : ρ) (offset : Word)
  | ldi (dr : ρ) (offset : Word)
  | ldr (dr base : ρ) (offset : Word)
  | lea (dr : ρ) (offset : Word)
  | st (sr : ρ) (offset : Word)
  | sti (sr : ρ) (offset : Word)
  | str (sr base : ρ) (offset : Word)
  | br (nzp offset : Word)
  | jmp (base : ρ)
  | jsr (offset : Word)
  | jsrr (base : ρ)
  | trap (vector : TrapVector)
deriving DecidableEq

namespace Instruction
variable {ρ : Type}

/-- The content of one field of an instruction. -/
inductive Field (ρ : Type) where
  | reg (r : ρ)
  | operand (o : Operand ρ)
  | word (w : Word)
  | vector (v : TrapVector)

/-- The name an instruction goes by in listings and stored text. -/
def mnemonic : Instruction ρ → String
  | .add .. => "Add"
  | .and .. => "And"
  | .not .. => "Not"
  | .ld .. => "Ld"
  | .ldi .. => "Ldi"
  | .ldr .. => "Ldr"
  | .lea .. => "Lea"
  | .st .. => "St"
  | .sti .. => "Sti"
  | .str .. => "Str"
  | .br .. => "Br"
  | .jmp .. => "Jmp"
  | .jsr .. => "Jsr"
  | .jsrr .. => "Jsrr"
  | .trap .. => "Trap"

/-- The fields of an instruction by name, in the order in which they are shown and stored. -/
def fields : Instruction ρ → List (String × Field ρ)
  | .add dr sr1 op2 => [("dr", .reg dr), ("sr1", .reg sr1), ("op2", .operand op2)]
  | .and dr sr1 op2 => [("dr", .reg dr), ("sr1", .reg sr1), ("op2", .operand op2)]
  | .not dr sr => [("dr", .reg dr), ("sr", .reg sr)]
  | .ld dr offset => [("dr", .reg dr), ("offset", .word offset)]
  | .ldi dr offset => [("dr", .reg dr), ("offset", .word offset)]
  | .ldr dr base offset => [("dr", .reg dr), ("base", .reg base), ("offset", .word offset)]
  | .lea dr offset => [("dr", .reg dr), ("offset", .word offset)]
  | .st sr offset => [("sr", .reg sr), ("offset", .word offset)]
  | .sti sr offset => [("sr", .reg sr), ("offset", .word offset)]
  | .str sr base offset => [("sr", .reg sr), ("base", .reg base), ("offset", .word offset)]
  | .br nzp offset => [("nzp", .word nzp), ("offset", .word offset)]
  | .jmp base => [("base", .reg base)]
  | .jsr offset => [("offset", .word offset)]
  | .jsrr base => [("base", .reg base)]
  | .trap vector => [("vector", .vector vector)]

end Instruction

instance {ρ : Type} [Outlined ρ] : Outlined (Operand ρ) :=
  ⟨fun
    | .reg r => .wrapped "Reg" [Outlined.outline r]
    | .imm v => .wrapped "Imm" [Outlined.outline v]⟩

namespace Instruction
variable {ρ : Type} [Outlined ρ]

def Field.shown : Field ρ → Outline
  | .reg r => Outlined.outline r
  | .operand o => Outlined.outline o
  | .word w => Outlined.outline w
  | .vector v => Outlined.outline v

instance : Outlined (Instruction ρ) :=
  ⟨fun i => .record i.mnemonic (i.fields.map fun (name, f) => (name, f.shown))⟩

/-- An instruction on one line of a listing. -/
def text (i : Instruction ρ) : String := (Outlined.outline i).inline

end Instruction

end LittleComputer
