import LittleComputer.Proofs.Instruction.Layout

/-! Decoding undoes encoding. An instruction is decoded from its own word, whatever is put into the
unused bits, and from no other word. -/
namespace LittleComputer

/-- A number of `width` bits with its sign spread to the top. -/
def Widened (width : Nat) (v : Word) : Prop :=
  ∃ field : BitVec width, v.toBitVec = field.signExtend 16

private theorem setWidth_signExtend {width : Nat} (h : width ≤ 16) (field : BitVec width) :
    (field.signExtend 16).setWidth width = field := by
  apply BitVec.eq_of_getLsbD_eq
  intro k hk
  rw [BitVec.getLsbD_setWidth, BitVec.getLsbD_signExtend]
  simp [hk, Nat.lt_of_lt_of_le hk h]

/-- The number taken out of a word is the widened one that the word holds. -/
theorem signExtend_eq_iff {w v : Word} {width : Nat} (h₀ : 0 < width) (h : width < 16) :
    signExtend w width = v ↔ Widened width v ∧ (Bitfield.number 0 width v).In w := by
  rw [signExtend_eq_signed w h₀ h, signed]
  constructor
  · rintro rfl
    exact ⟨⟨_, rfl⟩, (setWidth_signExtend (Nat.le_of_lt h) _).symm⟩
  · rintro ⟨⟨field, hv⟩, stands⟩
    have cut : v.toBitVec.setWidth width = field := by
      rw [hv, setWidth_signExtend (Nat.le_of_lt h)]
    have held : bits w 0 width = field := stands.trans cut
    rw [held, ← hv]

theorem ofBits_eq_iff {w : Word} {low : Nat} {r : Reg} (h : low < 16) :
    Reg.ofBits (w >>> UInt16.ofNat low) = r ↔ (Bitfield.register low r).In w := by
  rw [ofBits_shift w h, regAt]
  constructor
  · rintro rfl
    rfl
  · intro stands
    rw [show bits w low 3 = BitVec.ofFin r.index from stands]

theorem mask_eq_iff {w nzp : Word} :
    (w >>> 9) &&& 7 = nzp ↔ nzp.toNat < 8 ∧ (Bitfield.number 9 3 nzp).In w := by
  rw [← UInt16.toBitVec_inj, mask_eq_bits]
  constructor
  · intro h
    constructor
    · change nzp.toBitVec.toNat < 8
      rw [← h, BitVec.toNat_setWidth]
      omega
    · rw [Bitfield.In, Bitfield.number, ← h]
      simp
  · rintro ⟨small, stands⟩
    rw [show bits w 9 3 = nzp.toBitVec.setWidth 3 from stands]
    apply BitVec.eq_of_toNat_eq
    simp
    omega

theorem bit_eq_iff {w : Word} {low : Nat} {set : Bool} (h : low < 16) :
    ((w >>> UInt16.ofNat low) &&& 1 == 1) = set ↔ (Bitfield.flag low set).In w := by
  have bit : ∀ b : BitVec 1, ∀ set : Bool, (b == 1#1) = set ↔ b = BitVec.ofBool set := by decide
  rw [bit_test w h, getLsbD_eq_bits]
  exact bit _ set

theorem ofWord_eq_iff {w : Word} {o : Opcode} :
    Opcode.ofWord w = o ↔ (Bitfield.number 12 4 o.code).In w :=
  ⟨bits_opcode, ofWord_of_bits⟩

theorem ofCode?_eq_iff {w : Word} {v : TrapVector} :
    TrapVector.ofCode? (lowByte w) = some v ↔ (Bitfield.number 0 8 v.code.toUInt16).In w := by
  rw [ofCode?_lowByte_eq_some]
  cases v <;> rfl

namespace Instruction
open Bitfield (register number flag)

/-- The registers that an instruction names. -/
def registers {ρ : Type} : Instruction ρ → List ρ
  | .add dr sr1 (.reg sr2) | .and dr sr1 (.reg sr2) => [dr, sr1, sr2]
  | .add dr sr1 (.imm _) | .and dr sr1 (.imm _) => [dr, sr1]
  | .not dr sr => [dr, sr]
  | .ld dr _ | .ldi dr _ | .lea dr _ => [dr]
  | .st sr _ | .sti sr _ => [sr]
  | .ldr dr base _ => [dr, base]
  | .str sr base _ => [sr, base]
  | .jmp base | .jsrr base => [base]
  | .br .. | .jsr .. | .trap .. => []

/-- The numbers in an instruction, each with the width of its field. -/
def numbers {ρ : Type} : Instruction ρ → List (Nat × Word)
  | .add _ _ (.imm v) | .and _ _ (.imm v) => [(5, v)]
  | .ldr _ _ offset | .str _ _ offset => [(6, offset)]
  | .ld _ offset | .ldi _ offset | .lea _ offset | .st _ offset | .sti _ offset
  | .br _ offset => [(9, offset)]
  | .jsr offset => [(11, offset)]
  | _ => []

/-- All that an instruction says has room in its word. That its registers are among R0 to R7 its
type says already. -/
structure InRange (i : Instruction Reg) : Prop where
  registers : ∀ r ∈ i.registers, r.index.val < 8
  mask : ∀ nzp offset, i = .br nzp offset → nzp.toNat < 8
  numbers : ∀ n ∈ i.numbers, Widened n.1 n.2

private theorem operandOf_eq_reg {w : Word} {r : Reg} :
    operandOf w = .reg r ↔ ∀ f ∈ operandLayout (.reg r), f.In w := by
  have mode : ((w >>> 5) &&& 1 == 1) = false ↔ (flag 5 false).In w := bit_eq_iff (by decide)
  have source : Reg.ofBits (w >>> 0) = r ↔ (register 0 r).In w := ofBits_eq_iff (by decide)
  rw [UInt16.shiftRight_zero] at source
  simp only [operandLayout, List.forall_mem_cons, ← mode, ← source]
  cases h : ((w >>> 5) &&& 1 == 1) <;> simp [operandOf, h]

private theorem operandOf_eq_imm {w v : Word} :
    operandOf w = .imm v ↔ Widened 5 v ∧ ∀ f ∈ operandLayout (.imm v), f.In w := by
  have mode : ((w >>> 5) &&& 1 == 1) = true ↔ (flag 5 true).In w := bit_eq_iff (by decide)
  have source : signExtend w 5 = v ↔ Widened 5 v ∧ (number 0 5 v).In w :=
    signExtend_eq_iff (by decide) (by decide)
  simp only [operandLayout, List.forall_mem_cons, ← mode]
  cases h : ((w >>> 5) &&& 1 == 1) <;> simp [operandOf, h, source]

private theorem inRange_iff {i : Instruction Reg} : i.InRange ↔
    (∀ nzp offset, i = .br nzp offset → nzp.toNat < 8) ∧ ∀ n ∈ i.numbers, Widened n.1 n.2 :=
  ⟨fun h => ⟨h.mask, h.numbers⟩, fun h => ⟨fun r _ => r.index.isLt, h.1, h.2⟩⟩

private theorem opcode_of_decode {w : Word} {i : Instruction Reg} (h : decode w = .ok i) :
    Opcode.ofWord w = i.opcode := by
  cases operation : Opcode.ofWord w with
  | rti | res => simp [decode, operation] at h
  | jsr =>
    simp only [decode, operation, Except.ok.injEq] at h
    subst h
    split <;> rfl
  | trap =>
    simp only [decode, operation] at h
    split at h
    · cases h
      rfl
    · cases h
  | br | add | ld | st | and | ldr | str | not | ldi | sti | jmp | lea =>
    simp only [decode, operation] at h
    cases h
    rfl

private theorem decode_eq_ok_iff_of_opcode {w : Word} {i : Instruction Reg}
    (operation : Opcode.ofWord w = i.opcode) :
    decode w = .ok i ↔ i.InRange ∧ ∀ f ∈ i.operands, f.In w := by
  have dr {r : Reg} : Reg.ofBits (w >>> 9) = r ↔ (register 9 r).In w := ofBits_eq_iff (by decide)
  have sr {r : Reg} : Reg.ofBits (w >>> 6) = r ↔ (register 6 r).In w := ofBits_eq_iff (by decide)
  have offset6 {v : Word} : signExtend w 6 = v ↔ _ := signExtend_eq_iff (by decide) (by decide)
  have offset9 {v : Word} : signExtend w 9 = v ↔ _ := signExtend_eq_iff (by decide) (by decide)
  have offset11 {v : Word} : signExtend w 11 = v ↔ _ := signExtend_eq_iff (by decide) (by decide)
  have mode {set : Bool} : (flag 11 set).In w ↔ ((w >>> 11) &&& 1 == 1) = set :=
    (bit_eq_iff (by decide)).symm
  rw [inRange_iff]
  cases i with
  | add r s op2 | and r s op2 =>
    cases op2 with
    | reg r' => simp [decode, operation, opcode, operands, numbers, dr, sr, operandOf_eq_reg]
    | imm v =>
      simp [decode, operation, opcode, operands, numbers, dr, sr, operandOf_eq_imm, and_left_comm]
  | jsr offset =>
    cases h : ((w >>> 11) &&& 1 == 1) <;>
      simp [decode, operation, opcode, operands, numbers, offset11, mode, h]
  | jsrr base =>
    cases h : ((w >>> 11) &&& 1 == 1) <;>
      simp [decode, operation, opcode, operands, numbers, sr, mode, h]
  | trap v =>
    cases h : TrapVector.ofCode? (lowByte w) <;>
      simp [decode, operation, opcode, operands, numbers, ← ofCode?_eq_iff, h]
  | br nzp offset =>
    simp [decode, operation, opcode, operands, numbers, offset9, mask_eq_iff, and_assoc,
      and_left_comm]
  | _ =>
    simp [decode, operation, opcode, operands, numbers, dr, sr, offset6, offset9, and_left_comm]

/-- An instruction is decoded from the words it stands in, as long as they have room for it. -/
theorem decode_eq_ok_iff_standsIn {w : Word} {i : Instruction Reg} :
    decode w = .ok i ↔ i.InRange ∧ i.StandsIn w := by
  rw [StandsIn, layout, List.forall_mem_cons, ← ofWord_eq_iff]
  constructor
  · intro h
    have operation := opcode_of_decode h
    obtain ⟨range, stands⟩ := (decode_eq_ok_iff_of_opcode operation).1 h
    exact ⟨range, operation, stands⟩
  · rintro ⟨range, operation, stands⟩
    exact (decode_eq_ok_iff_of_opcode operation).2 ⟨range, stands⟩

/-- An instruction is decoded from the words that agree with its own but for the unused bits, and
from no others. What is decoded has room in its word. -/
theorem decode_eq_ok_iff {w : Word} {i : Instruction Reg} :
    decode w = .ok i ↔
      i.InRange ∧ w &&& ~~~i.unusedBits = i.encode &&& ~~~i.unusedBits := by
  rw [← standsIn_iff]
  exact decode_eq_ok_iff_standsIn

/-- A jump with all its unused bits set. -/
example : decode 0xCFFF = .ok (.jmp .r7) := rfl

end Instruction

end LittleComputer
