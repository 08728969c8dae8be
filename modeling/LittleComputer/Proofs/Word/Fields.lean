import LittleComputer.Instruction.Decoding

/-! Fields of a word: some of its bits, taken out as a vector of bits. The fields that decoding
takes out by shifts and masks are these, and widening a field repeats its top bit. -/
namespace LittleComputer

/-- `width` bits of a word from bit `low` up. -/
def bits (w : Word) (low width : Nat) : BitVec width := w.toBitVec.extractLsb' low width

/-- The low `width` bits of a word as a signed number, widened to a word. -/
def signed (w : Word) (width : Nat) : Word := ⟨(bits w 0 width).signExtend 16⟩

/-- The register named by three bits of a word. -/
def regAt (w : Word) (low : Nat) : Reg := ⟨(bits w low 3).toFin⟩

theorem bits_eq_ofNat (w : Word) (low width : Nat) :
    bits w low width = BitVec.ofNat width (w.toNat >>> low) := rfl

theorem toNat_wordOfBytes (low high : Byte) :
    (wordOfBytes low high).toNat = 256 * high.toNat + low.toNat := by
  have hl := low.toNat_lt
  have hh := high.toNat_lt
  have hs : high.toNat <<< 8 % 2 ^ 16 = high.toNat <<< 8 := by
    rw [Nat.shiftLeft_eq]
    exact Nat.mod_eq_of_lt (by omega)
  have ho : high.toNat <<< 8 ||| low.toNat = high.toNat <<< 8 + low.toNat :=
    (Nat.shiftLeft_add_eq_or_of_lt hl high.toNat).symm
  rw [wordOfBytes, UInt16.toNat_or, UInt16.toNat_shiftLeft, UInt8.toNat_toUInt16,
    UInt8.toNat_toUInt16]
  change high.toNat <<< 8 % 2 ^ 16 ||| low.toNat = _
  rw [hs, ho, Nat.shiftLeft_eq, Nat.mul_comm]

private theorem toNat_amount {k : Nat} (h : k < 16) : (UInt16.ofNat k).toNat = k := by
  rw [UInt16.toNat_ofNat']
  omega

private theorem toBitVec_shiftRight (w : Word) {k : Nat} (h : k < 16) :
    (w >>> UInt16.ofNat k).toBitVec = w.toBitVec >>> k := by
  apply BitVec.eq_of_toNat_eq
  change (w >>> UInt16.ofNat k).toNat = _
  rw [UInt16.toNat_shiftRight, toNat_amount h, Nat.mod_eq_of_lt h]
  rfl

theorem toBitVec_shiftLeft (w : Word) {k : Nat} (h : k < 16) :
    (w <<< UInt16.ofNat k).toBitVec = w.toBitVec <<< k := by
  apply BitVec.eq_of_toNat_eq
  change (w <<< UInt16.ofNat k).toNat = _
  rw [UInt16.toNat_shiftLeft, toNat_amount h, Nat.mod_eq_of_lt h]
  simp

theorem ofBits_shift (w : Word) {low : Nat} (h : low < 16) :
    Reg.ofBits (w >>> UInt16.ofNat low) = regAt w low := by
  apply congrArg Reg.mk
  apply Fin.ext
  change (w >>> UInt16.ofNat low).toBitVec.toNat % 8 = (bits w low 3).toNat
  rw [toBitVec_shiftRight w h]
  rfl

/-- A single bit, tested. -/
theorem bit_test (w : Word) {k : Nat} (h : k < 16) :
    ((w >>> UInt16.ofNat k) &&& 1 == 1) = w.toBitVec.getLsbD k := by
  rw [Bool.eq_iff_iff, beq_iff_eq, ← UInt16.toBitVec_inj, UInt16.toBitVec_and,
    toBitVec_shiftRight w h]
  change w.toBitVec >>> k &&& 1#16 = 1#16 ↔ _
  rw [BitVec.and_one_eq_setWidth_ofBool_getLsbD, BitVec.getLsbD_ushiftRight, Nat.add_zero]
  cases w.toBitVec.getLsbD k <;> decide

theorem getLsbD_eq_bits (w : Word) (k : Nat) : w.toBitVec.getLsbD k = (bits w k 1 == 1#1) :=
  BitVec.getLsbD_eq_extractLsb' w.toBitVec k

/-- Widening a field repeats its top bit. -/
theorem signExtend_eq_signed (w : Word) {width : Nat} (h₀ : 0 < width) (h : width < 16) :
    signExtend w width = signed w width := by
  have field (i : Nat) : (w &&& (0xFFFF >>> UInt16.ofNat (16 - width))).toBitVec.getLsbD i =
      (w.toBitVec.getLsbD i && decide (i < width)) := by
    rw [UInt16.toBitVec_and, toBitVec_shiftRight _ (by omega), BitVec.getLsbD_and]
    change (_ && (BitVec.allOnes 16 >>> (16 - width)).getLsbD i) = _
    rw [BitVec.getLsbD_ushiftRight, BitVec.getLsbD_allOnes]
    congr 2
    rw [eq_iff_iff]
    omega
  have above (i : Nat) : ((0xFFFF : Word) <<< UInt16.ofNat width).toBitVec.getLsbD i =
      (decide (i < 16) && !decide (i < width)) := by
    rw [toBitVec_shiftLeft _ h]
    change (BitVec.allOnes 16 <<< width).getLsbD i = _
    rw [BitVec.getLsbD_shiftLeft, BitVec.getLsbD_allOnes]
    grind
  have top : (bits w 0 width).msb = w.toBitVec.getLsbD (width - 1) := by
    rw [bits, BitVec.msb_eq_getLsbD_last, BitVec.getLsbD_extractLsb', Nat.zero_add,
      decide_eq_true (by omega), Bool.true_and]
  have own (i : Nat) (hi : i < width) :
      (bits w 0 width).getLsbD i = w.toBitVec.getLsbD i := by
    rw [bits, BitVec.getLsbD_extractLsb', Nat.zero_add, decide_eq_true hi, Bool.true_and]
  -- Bit by bit: the field's own bits below its width, its top bit from there on.
  apply UInt16.toBitVec_inj.1
  apply BitVec.eq_of_getLsbD_eq
  intro i hi
  rw [signed, BitVec.getLsbD_signExtend, top, signExtend, bit_test _ (by omega), field,
    decide_eq_true (by omega : width - 1 < width), Bool.and_true, decide_eq_true hi, Bool.true_and]
  split
  · rw [UInt16.toBitVec_or, BitVec.getLsbD_or, field, above]
    grind
  · rw [field]
    grind

/-- The mask of a branch is the three bits above its offset. -/
theorem mask_eq_bits (w : Word) : ((w >>> 9) &&& 7).toBitVec = (bits w 9 3).setWidth 16 := by
  apply BitVec.eq_of_toNat_eq
  change (w.toBitVec >>> 9 &&& 7#16).toNat = _
  rw [BitVec.toNat_setWidth, bits_eq_ofNat, BitVec.toNat_ofNat, BitVec.toNat_and,
    BitVec.toNat_ushiftRight]
  change w.toNat >>> 9 &&& 2 ^ 3 - 1 = _
  rw [Nat.and_two_pow_sub_one_eq_mod]
  omega

private theorem code_ofWord_nibble :
    ∀ k : Fin 16, (Opcode.ofWord (UInt16.ofNat k.val <<< 12)).code = UInt16.ofNat k.val := by
  decide

/-- The top four bits of a word are the code of its operation. -/
theorem code_ofWord (w : Word) : (Opcode.ofWord w).code = w >>> 12 := by
  have hlt : (w >>> 12).toNat < 16 := by
    have hw := w.toNat_lt
    rw [UInt16.toNat_shiftRight]
    change w.toNat >>> 12 < 16
    omega
  have hk := code_ofWord_nibble ⟨(w >>> 12).toNat, hlt⟩
  simp only [UInt16.ofNat_toNat] at hk
  have hs : w >>> 12 <<< 12 >>> 12 = w >>> 12 := by
    have hw := w.toNat_lt
    apply UInt16.toNat_inj.1
    simp only [UInt16.toNat_shiftRight, UInt16.toNat_shiftLeft, UInt16.reduceToNat,
      Nat.shiftRight_eq_div_pow, Nat.shiftLeft_eq, Nat.reducePow, Nat.reduceMod]
    omega
  rw [← hk]
  congr 1
  rw [Opcode.ofWord, Opcode.ofWord, hs]

theorem bits_opcode {w : Word} {o : Opcode} (h : Opcode.ofWord w = o) :
    bits w 12 4 = o.code.toBitVec.setWidth 4 := by
  rw [← h, code_ofWord]
  apply BitVec.eq_of_toNat_eq
  rw [bits_eq_ofNat, BitVec.toNat_ofNat, BitVec.toNat_setWidth]
  rfl

private theorem setWidth_code (o : Opcode) :
    (o.code.toBitVec.setWidth 4).setWidth 16 = o.code.toBitVec := by
  cases o <;> rfl

private theorem ofWord_code (o : Opcode) : Opcode.ofWord (o.code <<< 12) = o := by
  cases o <;> rfl

/-- The top four bits of a word determine its operation. -/
theorem ofWord_of_bits {w : Word} {o : Opcode} (h : bits w 12 4 = o.code.toBitVec.setWidth 4) :
    Opcode.ofWord w = o := by
  have nibble : (Opcode.ofWord w).code.toBitVec.setWidth 4 = o.code.toBitVec.setWidth 4 :=
    (bits_opcode rfl).symm.trans h
  have code : (Opcode.ofWord w).code = o.code := by
    rw [← UInt16.toBitVec_inj, ← setWidth_code, nibble, setWidth_code]
  rw [← ofWord_code (Opcode.ofWord w), code, ofWord_code]

theorem lowByte_eq_bits (w : Word) : lowByte w = ⟨bits w 0 8⟩ := by
  apply UInt8.toNat_inj.1
  change w.toNat % 2 ^ 8 = (w.toNat >>> 0) % 2 ^ 8
  rfl

/-- The low byte of a word determines its trap. -/
theorem ofCode?_lowByte_eq_some {w : Word} {v : TrapVector} :
    TrapVector.ofCode? (lowByte w) = some v ↔ bits w 0 8 = v.code.toBitVec := by
  rw [lowByte_eq_bits]
  constructor
  · intro h
    have code : v.code = ⟨bits w 0 8⟩ := by simpa using List.find?_some h
    rw [code]
  · intro h
    rw [h]
    cases v <;> rfl

end LittleComputer
