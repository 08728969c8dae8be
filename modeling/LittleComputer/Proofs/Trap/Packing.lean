import LittleComputer.Proofs.Word.Fields
import LittleComputer.Trap.Packed
import LittleComputer.Trap.Routine

/-! Packed strings, and what the routine that writes them makes of each word. Without zero bytes a
string comes back as it was, and no word of it is taken for its end. -/
namespace LittleComputer
open Trap (packedBytes)

theorem lowByte_wordOfBytes (low high : Byte) : lowByte (wordOfBytes low high) = low := by
  have hl := low.toNat_lt
  apply UInt8.toNat_inj.1
  rw [lowByte, UInt16.toNat_toUInt8, toNat_wordOfBytes]
  omega

theorem highByte_wordOfBytes (low high : Byte) : highByte (wordOfBytes low high) = high := by
  have hl := low.toNat_lt
  have hh := high.toNat_lt
  apply UInt8.toNat_inj.1
  rw [highByte, UInt16.toNat_toUInt8, UInt16.toNat_shiftRight, toNat_wordOfBytes]
  change (256 * high.toNat + low.toNat) >>> 8 % 2 ^ 8 = high.toNat
  rw [Nat.shiftRight_eq_div_pow]
  omega

theorem packedBytes_single (a : Byte) : packedBytes (wordOfBytes a 0) = [a] := by
  rw [packedBytes, highByte_wordOfBytes, lowByte_wordOfBytes]
  rfl

theorem packedBytes_pair (a : Byte) {b : Byte} (hb : b ≠ 0) :
    packedBytes (wordOfBytes a b) = [a, b] := by
  rw [packedBytes, highByte_wordOfBytes, lowByte_wordOfBytes, if_neg (by simpa using hb)]

theorem wordOfBytes_ne_zero {a : Byte} (ha : a ≠ 0) (b : Byte) : wordOfBytes a b ≠ 0 := by
  intro h
  apply ha
  rw [← lowByte_wordOfBytes a b, h]
  rfl

/-- Unpacking gives back the string. -/
theorem flatMap_packWords {s : List Byte} (nonzero : ∀ b ∈ s, b ≠ 0) :
    (packWords s).flatMap packedBytes = s := by
  induction s using packWords.induct with
  | case1 => rfl
  | case2 a => rw [packWords, List.flatMap_singleton, packedBytes_single]
  | case3 a b rest ih =>
    have hb : b ≠ 0 := nonzero b (by simp)
    have hr : ∀ c ∈ rest, c ≠ 0 := fun c hc => nonzero c (by simp [hc])
    rw [packWords, List.flatMap_cons, packedBytes_pair a hb, ih hr]
    rfl

/-- No word of a packed string looks like the word behind its end. -/
theorem ne_zero_of_mem_packWords {s : List Byte} (nonzero : ∀ b ∈ s, b ≠ 0) :
    ∀ w ∈ packWords s, w ≠ 0 := by
  induction s using packWords.induct with
  | case1 => exact List.forall_mem_nil _
  | case2 a =>
    intro w hw
    cases List.mem_singleton.1 hw
    exact wordOfBytes_ne_zero (nonzero a (by simp)) 0
  | case3 a b rest ih =>
    have hr : ∀ c ∈ rest, c ≠ 0 := fun c hc => nonzero c (by simp [hc])
    rw [packWords]
    exact List.forall_mem_cons.2 ⟨wordOfBytes_ne_zero (nonzero a (by simp)) b, ih hr⟩

theorem packWords_inj {s s' : List Byte} (nonzero : ∀ b ∈ s, b ≠ 0) (nonzero' : ∀ b ∈ s', b ≠ 0)
    (h : packWords s = packWords s') : s = s' := by
  rw [← flatMap_packWords nonzero, ← flatMap_packWords nonzero', h]

end LittleComputer
