import Mathlib.Algebra.Group.Nat.Defs
import LittleComputer.Instruction.Encoding
import LittleComputer.Proofs.Word.Bitfields

/-! The layout of instruction words: which bits of a word say what. The word of an instruction is
put together from these fields, and they lie over all bits but the unused ones. -/
namespace LittleComputer

namespace Bitfield
variable {v : Word} {low width : Nat} {r : Reg}

/-- A register's number, from bit `low` up. -/
def register (low : Nat) (r : Reg) : Bitfield := ⟨low, 3, BitVec.ofFin r.index⟩

/-- The low bits of a number, from bit `low` up. -/
def number (low width : Nat) (v : Word) : Bitfield := ⟨low, width, v.toBitVec.setWidth width⟩

/-- A single bit. -/
def flag (low : Nat) (set : Bool) : Bitfield := ⟨low, 1, BitVec.ofBool set⟩

theorem register_alone (h : low < 16) :
    (register low r).alone = Instruction.regField r (UInt16.ofNat low) := by
  have field : (register low r).value.setWidth 16 = (UInt16.ofNat r.index.val).toBitVec := by
    apply BitVec.eq_of_toNat_eq
    simp [register]
  apply UInt16.toBitVec_inj.1
  rw [Instruction.regField, toBitVec_shiftLeft _ h, ← field]
  rfl

theorem number_alone (hlow : low < 16) (hwidth : width < 16) :
    (number low width v).alone = (v &&& UInt16.ofNat (2 ^ width - 1)) <<< UInt16.ofNat low := by
  have wide : 2 ^ width < 2 ^ 16 := Nat.pow_lt_pow_right (by decide) hwidth
  have cut : v.toNat % 2 ^ width < 2 ^ width := Nat.mod_lt _ (Nat.two_pow_pos width)
  have mask : (UInt16.ofNat (2 ^ width - 1)).toNat = 2 ^ width - 1 := by
    rw [UInt16.toNat_ofNat']
    exact Nat.mod_eq_of_lt (by omega)
  have field : (v.toBitVec.setWidth width).setWidth 16 =
      (v &&& UInt16.ofNat (2 ^ width - 1)).toBitVec := by
    apply BitVec.eq_of_toNat_eq
    rw [BitVec.toNat_setWidth, BitVec.toNat_setWidth, UInt16.toNat_toBitVec, UInt16.toNat_toBitVec,
      UInt16.toNat_and, mask, Nat.and_two_pow_sub_one_eq_mod]
    exact Nat.mod_eq_of_lt (Nat.lt_trans cut wide)
  apply UInt16.toBitVec_inj.1
  rw [toBitVec_shiftLeft _ hlow, ← field]
  rfl

end Bitfield

namespace Instruction
open Bitfield (register number flag)

/-- The fields of a second source. -/
def operandLayout : Operand Reg → List Bitfield
  | .reg r => [flag 5 false, register 0 r]
  | .imm v => [flag 5 true, number 0 5 v]

/-- The fields behind the operation. -/
def operands : Instruction Reg → List Bitfield
  | .add dr sr1 op2 | .and dr sr1 op2 => register 9 dr :: register 6 sr1 :: operandLayout op2
  | .not dr sr => [register 9 dr, register 6 sr]
  | .ld dr offset | .ldi dr offset | .lea dr offset => [register 9 dr, number 0 9 offset]
  | .ldr dr base offset => [register 9 dr, register 6 base, number 0 6 offset]
  | .st sr offset | .sti sr offset => [register 9 sr, number 0 9 offset]
  | .str sr base offset => [register 9 sr, register 6 base, number 0 6 offset]
  | .br nzp offset => [number 9 3 nzp, number 0 9 offset]
  | .jmp base => [register 6 base]
  | .jsr offset => [flag 11 true, number 0 11 offset]
  | .jsrr base => [flag 11 false, register 6 base]
  | .trap vector => [number 0 8 vector.code.toUInt16]

/-- The fields of an instruction's word. -/
def layout (i : Instruction Reg) : List Bitfield := number 12 4 i.opcode.code :: i.operands

/-- What is customarily put into the unused bits. -/
def filler : Instruction Reg → Word
  | .not .. => 0x3F
  | _ => 0

private theorem opcode_alone (o : Opcode) : (number 12 4 o.code).alone = o.code <<< 12 := by
  cases o <;> rfl

private theorem vector_alone (v : TrapVector) :
    (number 0 8 v.code.toUInt16).alone = v.code.toUInt16 := by
  cases v <;> rfl

private theorem operandField_eq_join (op2 : Operand Reg) :
    operandField op2 = Bitfield.join 0 (operandLayout op2) := by
  cases op2 with
  | reg r =>
    have number : (register 0 r).alone = regField r 0 := Bitfield.register_alone (by decide)
    have mode : (flag 5 false).alone = 0 := rfl
    simp [operandField, operandLayout, Bitfield.join, number, mode]
  | imm v =>
    have number : (number 0 5 v).alone = (v &&& 0x1F) <<< 0 :=
      Bitfield.number_alone (by decide) (by decide)
    have mode : (flag 5 true).alone = 0x20 := rfl
    simp [operandField, operandLayout, Bitfield.join, number, mode]

/-- The word of an instruction is its fields put together. -/
theorem encode_eq_join (i : Instruction Reg) : i.encode = Bitfield.join i.filler i.layout := by
  have reg6 (r : Reg) : (register 6 r).alone = regField r 6 := Bitfield.register_alone (by decide)
  have reg9 (r : Reg) : (register 9 r).alone = regField r 9 := Bitfield.register_alone (by decide)
  have num6 (v : Word) : (number 0 6 v).alone = (v &&& 0x3F) <<< 0 :=
    Bitfield.number_alone (by decide) (by decide)
  have num9 (v : Word) : (number 0 9 v).alone = (v &&& 0x1FF) <<< 0 :=
    Bitfield.number_alone (by decide) (by decide)
  have num11 (v : Word) : (number 0 11 v).alone = (v &&& 0x7FF) <<< 0 :=
    Bitfield.number_alone (by decide) (by decide)
  have mask (v : Word) : (number 9 3 v).alone = (v &&& 7) <<< 9 :=
    Bitfield.number_alone (by decide) (by decide)
  have jsr : (flag 11 true).alone = 0x800 := rfl
  have jsrr : (flag 11 false).alone = 0 := rfl
  have join_cons (background : Word) (f : Bitfield) (fs : List Bitfield) :
    Bitfield.join background (f :: fs) = f.alone ||| Bitfield.join background fs := rfl
  have join_nil (background : Word) : Bitfield.join background [] = background := rfl
  rw [encode, layout, join_cons, opcode_alone]
  congr 1
  cases i with
  | add dr sr1 op2 | and dr sr1 op2 =>
    simp only [operandBits, operands, filler, join_cons, operandField_eq_join, reg6, reg9,
      UInt16.or_assoc]
  | _ =>
    simp [operandBits, operands, filler, join_cons, join_nil, reg6, reg9, num6, num9, num11,
      mask, jsr, jsrr, vector_alone, UInt16.or_assoc]

/-- No two fields of an instruction share a bit. -/
theorem layout_apart (i : Instruction Reg) : i.layout.Pairwise Bitfield.Apart := by
  cases i with
  | add _ _ op2 | and _ _ op2 =>
    cases op2 <;> simp [layout, operands, operandLayout, Bitfield.Apart, register, number, flag]
  | _ => simp [layout, operands, Bitfield.Apart, register, number, flag]

/-- The fields of an instruction lie over all bits but the unused ones. -/
theorem used_iff (i : Instruction Reg) : ∀ k, k < 16 →
    (i.unusedBits.toBitVec.getLsbD k = false ↔ ∃ f ∈ i.layout, f.Over k) := by
  cases i with
  | add _ _ op2 | and _ _ op2 =>
    cases op2 <;>
      simp only [layout, operands, operandLayout, List.mem_cons, List.not_mem_nil, or_false,
        exists_eq_or_imp, exists_eq_left, Bitfield.Over, register, number, flag, unusedBits] <;>
      decide
  | _ =>
    simp only [layout, operands, List.mem_cons, List.not_mem_nil, or_false, exists_eq_or_imp,
      exists_eq_left, Bitfield.Over, register, number, flag, unusedBits]
    decide

theorem layout_fits (i : Instruction Reg) : ∀ f ∈ i.layout, f.low + f.width ≤ 16 := by
  cases i with
  | add _ _ op2 | and _ _ op2 =>
    cases op2 <;> simp [layout, operands, operandLayout, register, number, flag]
  | _ => simp [layout, operands, register, number, flag]

private theorem filler_eq (i : Instruction Reg) : i.filler = 0 ∨ i.filler = i.unusedBits := by
  cases i <;> simp [filler, unusedBits]

/-- A word holds all that an instruction says. -/
def StandsIn (i : Instruction Reg) (w : Word) : Prop := ∀ f ∈ i.layout, f.In w

theorem standsIn_encode (i : Instruction Reg) : i.StandsIn i.encode := by
  intro f hf
  have fits := i.layout_fits f hf
  rw [encode_eq_join]
  apply Bitfield.in_join i.layout_apart hf fits
  intro k lies
  have below : k < 16 := Nat.lt_of_lt_of_le lies.2 fits
  rcases i.filler_eq with none | unused
  · rw [none]
    exact BitVec.getLsbD_zero
  · rw [unused]
    exact (i.used_iff k below).2 ⟨f, hf, lies⟩

/-- An instruction stands in the words that agree with its own in the used bits, and in no
others. -/
theorem standsIn_iff {i : Instruction Reg} {w : Word} :
    i.StandsIn w ↔ w &&& ~~~i.unusedBits = i.encode &&& ~~~i.unusedBits := by
  rw [masked_eq_iff]
  constructor
  · intro h k hk used
    obtain ⟨f, hf, lies⟩ := (i.used_iff k hk).1 used
    rw [(h f hf).getLsbD lies, (i.standsIn_encode f hf).getLsbD lies]
  · intro h f hf
    apply (i.standsIn_encode f hf).congr
    intro k lies
    have below : k < 16 := Nat.lt_of_lt_of_le lies.2 (i.layout_fits f hf)
    exact h k below ((i.used_iff k below).2 ⟨f, hf, lies⟩)

end Instruction

end LittleComputer
