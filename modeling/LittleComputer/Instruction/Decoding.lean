import LittleComputer.Instruction.Basic

/-! From words to instructions. Two operation codes and most trap vectors mean nothing. -/
namespace LittleComputer

/-- Why a word is no instruction. -/
inductive DecodeError where
  | reserved (opcode : Opcode) (word : Word)
  | unknownTrap (vector : Byte)
deriving DecidableEq

def DecodeError.message : DecodeError → String
  | .reserved opcode word =>
    "reserved opcode " ++ Named.name opcode ++ " in instruction 0x" ++ hex 4 word.toNat
  | .unknownTrap vector => "unknown trap vector 0x" ++ hex 2 vector.toNat

namespace Instruction

/-- Bit 5 tells an immediate number from a register. -/
def operandOf (w : Word) : Operand Reg :=
  if (w >>> 5) &&& 1 == 1 then .imm (signExtend w 5) else .reg (.ofBits w)

def decode (w : Word) : Except DecodeError (Instruction Reg) :=
  let dr := Reg.ofBits (w >>> 9)
  let sr := Reg.ofBits (w >>> 6)
  match Opcode.ofWord w with
  | .add => .ok (.add dr sr (operandOf w))
  | .and => .ok (.and dr sr (operandOf w))
  | .not => .ok (.not dr sr)
  | .ld => .ok (.ld dr (signExtend w 9))
  | .ldi => .ok (.ldi dr (signExtend w 9))
  | .ldr => .ok (.ldr dr sr (signExtend w 6))
  | .lea => .ok (.lea dr (signExtend w 9))
  | .st => .ok (.st dr (signExtend w 9))
  | .sti => .ok (.sti dr (signExtend w 9))
  | .str => .ok (.str dr sr (signExtend w 6))
  | .br => .ok (.br ((w >>> 9) &&& 7) (signExtend w 9))
  | .jmp => .ok (.jmp sr)
  | .jsr => .ok (if (w >>> 11) &&& 1 == 1 then .jsr (signExtend w 11) else .jsrr sr)
  | .trap =>
    match TrapVector.ofCode? (lowByte w) with
    | some vector => .ok (.trap vector)
    | none => .error (.unknownTrap (lowByte w))
  | .rti => .error (.reserved .rti w)
  | .res => .error (.reserved .res w)

end Instruction

end LittleComputer
