import Mathlib.Algebra.Group.Int.Defs
import Mathlib.Algebra.Group.Nat.Defs
import LittleComputer.Proofs.Word.Fields

/-! Offsets. A field of a word stands for a signed number, and to add the widened field to an
address is to add this number to it, round the end of memory. -/
namespace LittleComputer

/-- The low `width` bits of a word as a number in two's complement. -/
def offset (w : Word) (width : Nat) : Int :=
  let field := w.toNat % 2 ^ width
  if field < 2 ^ (width - 1) then field else field - 2 ^ width

/-- A shift by an amount that has to be less than the width of a word. -/
def shiftedLeft? (w : Word) (amount : Int) : Option Word :=
  if 0 ≤ amount ∧ amount < 16 then some (UInt16.ofNat (w.toNat * 2 ^ amount.toNat)) else none

def shiftedRight? (w : Word) (amount : Int) : Option Word :=
  if 0 ≤ amount ∧ amount < 16 then some (UInt16.ofNat (w.toNat / 2 ^ amount.toNat)) else none

/-- Widening with shifts that are checked. -/
def widened? (x : Word) (bits : Int) : Option Word := do
  let mask ← shiftedRight? 0xFFFF (16 - bits)
  let top ← shiftedRight? (x &&& mask) (bits - 1)
  if top &&& 1 == 1 then return (x &&& mask) ||| (← shiftedLeft? 0xFFFF bits)
  else return x &&& mask

theorem shiftedRight?_of_lt {k : Nat} (h : k < 16) (w : Word) :
    shiftedRight? w k = some (w >>> UInt16.ofNat k) := by
  have hw := w.toNat_lt
  have hd := Nat.div_le_self w.toNat (2 ^ k)
  have amount : k % 2 ^ 16 % 16 = k := by omega
  rw [shiftedRight?, if_pos (by omega), Int.toNat_natCast]
  congr 1
  apply UInt16.toNat_inj.1
  rw [UInt16.toNat_shiftRight, UInt16.toNat_ofNat', UInt16.toNat_ofNat', amount,
    Nat.shiftRight_eq_div_pow, Nat.mod_eq_of_lt (by omega)]

theorem shiftedLeft?_of_lt {k : Nat} (h : k < 16) (w : Word) :
    shiftedLeft? w k = some (w <<< UInt16.ofNat k) := by
  have amount : k % 2 ^ 16 % 16 = k := by omega
  rw [shiftedLeft?, if_pos (by omega), Int.toNat_natCast]
  congr 1
  apply UInt16.toNat_inj.1
  rw [UInt16.toNat_shiftLeft, UInt16.toNat_ofNat', UInt16.toNat_ofNat', amount, Nat.shiftLeft_eq]

section
variable {width : Nat} (pos : 1 ≤ width)
include pos

theorem toInt_bits (x : Word) : (bits x 0 width).toInt = offset x width := by
  have field : (bits x 0 width).toNat = x.toNat % 2 ^ width := rfl
  have double : 2 ^ (width - 1) + 2 ^ (width - 1) = 2 ^ width :=
    Nat.two_pow_pred_add_two_pow_pred pos
  have small : 2 * (x.toNat % 2 ^ width) < 2 ^ width ↔ x.toNat % 2 ^ width < 2 ^ (width - 1) := by
    omega
  rw [BitVec.toInt_eq_toNat_cond, field, offset]
  simp only [small]
  push_cast
  rfl

theorem offset_bounds (x : Word) :
    -2 ^ (width - 1) ≤ offset x width ∧ offset x width < 2 ^ (width - 1) := by
  rw [← toInt_bits pos]
  exact ⟨BitVec.le_toInt _, BitVec.toInt_lt⟩

variable (le : width ≤ 15)
include le

/-- All amounts are in range, so that to check them makes no difference. -/
theorem widened?_eq (x : Word) : widened? x width = some (signExtend x width) := by
  have mask := shiftedRight?_of_lt (show 16 - width < 16 by omega) 0xFFFF
  have top (field : Word) := shiftedRight?_of_lt (show width - 1 < 16 by omega) field
  have above := shiftedLeft?_of_lt (show width < 16 by omega) 0xFFFF
  rw [show ((16 - width : Nat) : Int) = 16 - width by omega] at mask
  simp only [show ((width - 1 : Nat) : Int) = width - 1 by omega] at top
  simp only [widened?, mask, top, above, Option.bind_eq_bind, Option.bind_some, signExtend]
  split <;> rfl

/-- A widened field is its number, in two's complement at the width of a word. -/
theorem toInt_signExtend (x : Word) : (signExtend x width).toBitVec.toInt = offset x width := by
  rw [signExtend_eq_signed x pos (by omega), signed, BitVec.toInt_signExtend_of_le (by omega),
    toInt_bits pos]

/-- Two words are widened alike exactly if they have the same low bits. -/
theorem signExtend_inj (x y : Word) :
    signExtend y width = signExtend x width ↔ y.toNat % 2 ^ width = x.toNat % 2 ^ width := by
  have field (w : Word) : (bits w 0 width).toNat = w.toNat % 2 ^ width := rfl
  rw [← UInt16.toBitVec_inj, ← BitVec.toInt_inj, toInt_signExtend pos le, toInt_signExtend pos le,
    ← toInt_bits pos, ← toInt_bits pos, BitVec.toInt_inj, ← BitVec.toNat_inj, field, field]

theorem toNat_add_signExtend (base x : Word) :
    ((base + signExtend x width).toNat : Int) = (base.toNat + offset x width) % 2 ^ 16 := by
  have value := toInt_signExtend pos le x
  rw [BitVec.toInt_eq_toNat_cond, UInt16.toNat_toBitVec] at value
  rw [UInt16.toNat_add]
  split at value <;> omega

/-- What has been widened has its sign at every larger width too. -/
theorem signExtend_signExtend {wider : Nat} (h : width ≤ wider) (le' : wider ≤ 15) (x : Word) :
    signExtend (signExtend x width) wider = signExtend x width := by
  obtain ⟨least, greatest⟩ := offset_bounds pos x
  have room : (2 : Int) ^ (width - 1) ≤ 2 ^ (wider - 1) := by
    exact_mod_cast Nat.pow_le_pow_right (by decide) (by omega : width - 1 ≤ wider - 1)
  have double : (2 : Int) ^ (wider - 1) + 2 ^ (wider - 1) = (2 ^ wider : Nat) := by
    exact_mod_cast Nat.two_pow_pred_add_two_pow_pred (by omega : 0 < wider)
  have fits : (offset x width).bmod (2 ^ wider) = offset x width := by
    apply Int.bmod_eq_of_le_mul_two
    · omega
    · omega
  have cut : bits (signExtend x width) 0 wider =
      (signExtend x width).toBitVec.signExtend wider := by
    rw [BitVec.signExtend_eq_setWidth_of_le _ (by omega), BitVec.setWidth_eq_extractLsb' (by omega)]
    rfl
  rw [← UInt16.toBitVec_inj, ← BitVec.toInt_inj, toInt_signExtend (by omega) le',
    ← toInt_bits (by omega), cut, BitVec.toInt_signExtend_eq_toInt_bmod_of_le _ (by omega),
    toInt_signExtend pos le, fits]

end

/-- A word is the low `width` bits of `x`, widened. -/
structure WidensTo (x : Word) (width : Nat) (v : Word) : Prop where
  /-- It comes about without a shift that is out of range. -/
  shifts : widened? x width = some v
  low_bits : ∀ y : Word, signExtend y width = v ↔ y.toNat % 2 ^ width = x.toNat % 2 ^ width
  range : -2 ^ (width - 1) ≤ offset x width ∧ offset x width < 2 ^ (width - 1)
  added : ∀ base : Word, ((base + v).toNat : Int) = (base.toNat + offset x width) % 2 ^ 16
  again : ∀ wider, width ≤ wider → wider ≤ 15 → signExtend v wider = v

/-- To take an offset from a word and to add it to an address is signed arithmetic modulo the size
of memory, whatever stands above the offset's field. -/
theorem signExtend_widens {width : Nat} (pos : 1 ≤ width) (le : width ≤ 15) (x : Word) :
    WidensTo x width (signExtend x width) where
  shifts := widened?_eq pos le x
  low_bits := signExtend_inj pos le x
  range := offset_bounds pos x
  added base := toNat_add_signExtend pos le base x
  again _ h le' := signExtend_signExtend pos le h le' x

/-- An offset of -2 below other bits, added to the second address of memory. -/
theorem signExtend_widens_of_eleven_bits :
    1 ≤ 11 ∧ 11 ≤ 15 ∧ WidensTo 0x4FFE 11 (signExtend 0x4FFE 11) ∧ offset 0x4FFE 11 = -2 ∧
      (1 + signExtend 0x4FFE 11 : Word).toNat = 0xFFFF := by
  have widens := signExtend_widens (by decide : 1 ≤ 11) (by decide) 0x4FFE
  have value : offset 0x4FFE 11 = -2 := by decide
  refine ⟨by decide, by decide, widens, value, ?_⟩
  have added := widens.added 1
  rw [value] at added
  exact Int.ofNat_inj.1 added

end LittleComputer
