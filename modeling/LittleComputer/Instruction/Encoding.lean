import LittleComputer.Instruction.Basic

/-! From instructions to words. Each instruction leaves some bits of its word unused, and those
are zero here but for a NOT, whose last six bits are customarily set. -/
namespace LittleComputer.Instruction

/-- A register's number, moved up to its field. -/
def regField (r : Reg) (shift : Word) : Word := UInt16.ofNat r.index.val <<< shift

def operandField : Operand Reg → Word
  | .reg r => regField r 0
  | .imm v => 0x20 ||| (v &&& 0x1F)

/-- The fields below the operation code. Numbers are cut to the width of their field. -/
def operandBits : Instruction Reg → Word
  | .add dr sr1 op2 | .and dr sr1 op2 => regField dr 9 ||| regField sr1 6 ||| operandField op2
  | .not dr sr => regField dr 9 ||| regField sr 6 ||| 0x3F
  | .ld dr offset | .ldi dr offset | .lea dr offset => regField dr 9 ||| (offset &&& 0x1FF)
  | .ldr dr base offset => regField dr 9 ||| regField base 6 ||| (offset &&& 0x3F)
  | .st sr offset | .sti sr offset => regField sr 9 ||| (offset &&& 0x1FF)
  | .str sr base offset => regField sr 9 ||| regField base 6 ||| (offset &&& 0x3F)
  | .br nzp offset => ((nzp &&& 7) <<< 9) ||| (offset &&& 0x1FF)
  | .jmp base => regField base 6
  | .jsr offset => 0x800 ||| (offset &&& 0x7FF)
  | .jsrr base => regField base 6
  | .trap vector => vector.code.toUInt16

def opcode : Instruction Reg → Opcode
  | .add .. => .add
  | .and .. => .and
  | .not .. => .not
  | .ld .. => .ld
  | .ldi .. => .ldi
  | .ldr .. => .ldr
  | .lea .. => .lea
  | .st .. => .st
  | .sti .. => .sti
  | .str .. => .str
  | .br .. => .br
  | .jmp .. => .jmp
  | .jsr .. | .jsrr .. => .jsr
  | .trap .. => .trap

/-- The word of an instruction. -/
def encode (i : Instruction Reg) : Word := (i.opcode.code <<< 12) ||| i.operandBits

/-- The bits of an instruction's word that say nothing. -/
def unusedBits : Instruction Reg → Word
  | .add _ _ (.reg _) | .and _ _ (.reg _) => 0x0018
  | .not .. => 0x003F
  | .jmp .. => 0x0E3F
  | .jsrr .. => 0x063F
  | .trap .. => 0x0F00
  | _ => 0

end LittleComputer.Instruction
