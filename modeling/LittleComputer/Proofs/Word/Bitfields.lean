import LittleComputer.Proofs.Word.Fields

/-! Words put together from fields. Each field can be read back from the word as long as the fields
are apart, and any word with the same bits there holds the same fields. -/
namespace LittleComputer

/-- Some bits of a word, from bit `low` up, and what they say. -/
structure Bitfield where
  low : Nat
  width : Nat
  value : BitVec width

namespace Bitfield

/-- A word holds a field in its place. -/
def In (f : Bitfield) (w : Word) : Prop := bits w f.low f.width = f.value

/-- A field lies over a bit. -/
def Over (f : Bitfield) (k : Nat) : Prop := f.low ≤ k ∧ k < f.low + f.width

/-- Two fields have no bit in common. -/
def Apart (f g : Bitfield) : Prop := f.low + f.width ≤ g.low ∨ g.low + g.width ≤ f.low

theorem Apart.symm {f g : Bitfield} (h : f.Apart g) : g.Apart f := Or.symm h

/-- The word that holds nothing but a field. -/
def alone (f : Bitfield) : Word := ⟨f.value.setWidth 16 <<< f.low⟩

/-- The word of some fields, put over a background. -/
def join (background : Word) (fs : List Bitfield) : Word :=
  fs.foldr (fun f w => f.alone ||| w) background

theorem in_iff {f : Bitfield} {w : Word} :
    f.In w ↔ ∀ j, j < f.width → w.toBitVec.getLsbD (f.low + j) = f.value.getLsbD j := by
  have read (j : Nat) (hj : j < f.width) :
      (bits w f.low f.width).getLsbD j = w.toBitVec.getLsbD (f.low + j) := by
    rw [bits, BitVec.getLsbD_extractLsb', decide_eq_true hj, Bool.true_and]
  constructor
  · intro h j hj
    rw [← read j hj, h]
  · intro h
    apply BitVec.eq_of_getLsbD_eq
    intro j hj
    rw [read j hj, h j hj]

/-- Of a word that holds a field, the bits under it are the field's. -/
theorem In.getLsbD {f : Bitfield} {w : Word} (h : f.In w) {k : Nat} (lies : f.Over k) :
    w.toBitVec.getLsbD k = f.value.getLsbD (k - f.low) := by
  obtain ⟨hlow, hhigh⟩ := lies
  rw [← in_iff.1 h (k - f.low) (by omega), Nat.add_sub_cancel' hlow]

/-- Words with the same bits under a field hold it together. -/
theorem In.congr {f : Bitfield} {w w' : Word} (h : f.In w)
    (same : ∀ k, f.Over k → w'.toBitVec.getLsbD k = w.toBitVec.getLsbD k) : f.In w' := by
  apply in_iff.2
  intro j hj
  rw [same _ ⟨by omega, by omega⟩]
  exact in_iff.1 h j hj

theorem getLsbD_alone (f : Bitfield) (k : Nat) :
    f.alone.toBitVec.getLsbD k =
      (decide (k < 16) && decide (f.low ≤ k) && f.value.getLsbD (k - f.low)) := by
  rw [alone, BitVec.getLsbD_shiftLeft, BitVec.getLsbD_setWidth]
  by_cases hk : k < 16
  · by_cases hl : f.low ≤ k
    · simp [hk, hl, show k - f.low < 16 by omega, Nat.not_lt.2 hl]
    · simp [hl, Nat.lt_of_not_le hl]
  · simp [hk]

/-- A field does not touch the bits under one that is apart from it. -/
theorem getLsbD_alone_of_apart {f g : Bitfield} (apart : f.Apart g) {k : Nat} (lies : f.Over k) :
    g.alone.toBitVec.getLsbD k = false := by
  obtain ⟨hlow, hhigh⟩ := lies
  rw [getLsbD_alone]
  rcases apart with below | above
  · simp [show ¬ g.low ≤ k by omega]
  · simp [BitVec.getLsbD_of_ge g.value (k - g.low) (by omega)]

theorem getLsbD_join_cons (background : Word) (g : Bitfield) (fs : List Bitfield) (k : Nat) :
    (join background (g :: fs)).toBitVec.getLsbD k =
      (g.alone.toBitVec.getLsbD k || (join background fs).toBitVec.getLsbD k) := by
  rw [join, List.foldr_cons, UInt16.toBitVec_or, BitVec.getLsbD_or]
  rfl

/-- Under a field that all others are apart from there is the background. -/
theorem getLsbD_join_of_apart {f : Bitfield} {fs : List Bitfield} (background : Word)
    (apart : ∀ g ∈ fs, f.Apart g) {k : Nat} (lies : f.Over k) :
    (join background fs).toBitVec.getLsbD k = background.toBitVec.getLsbD k := by
  induction fs with
  | nil => rfl
  | cons g fs ih =>
    obtain ⟨first, rest⟩ := List.forall_mem_cons.1 apart
    rw [getLsbD_join_cons, getLsbD_alone_of_apart first lies, Bool.false_or]
    exact ih rest

/-- Every field can be read back from the word of fields that are apart. -/
theorem in_join {fs : List Bitfield} {background : Word} (apart : fs.Pairwise Apart) {f : Bitfield}
    (hf : f ∈ fs) (fits : f.low + f.width ≤ 16)
    (clear : ∀ k, f.Over k → background.toBitVec.getLsbD k = false) :
    f.In (join background fs) := by
  induction fs with
  | nil => cases hf
  | cons g fs ih =>
    obtain ⟨first, rest⟩ := List.pairwise_cons.1 apart
    apply in_iff.2
    intro j hj
    have lies : f.Over (f.low + j) := ⟨by omega, by omega⟩
    rw [getLsbD_join_cons]
    rcases List.mem_cons.1 hf with rfl | hf
    · rw [getLsbD_join_of_apart background first lies, clear _ lies, Bool.or_false, getLsbD_alone]
      simp [show f.low + j < 16 by omega]
    · have other : f.Apart g := (first f hf).symm
      rw [getLsbD_alone_of_apart other lies, Bool.false_or]
      exact in_iff.1 (ih rest hf) j hj

end Bitfield

/-- Words agree but for some bits. -/
theorem masked_eq_iff {w w' unused : Word} :
    w &&& ~~~unused = w' &&& ~~~unused ↔ ∀ k, k < 16 → unused.toBitVec.getLsbD k = false →
      w.toBitVec.getLsbD k = w'.toBitVec.getLsbD k := by
  have masked (w : Word) {k : Nat} (hk : k < 16) : (w &&& ~~~unused).toBitVec.getLsbD k =
      (w.toBitVec.getLsbD k && !unused.toBitVec.getLsbD k) := by
    rw [UInt16.toBitVec_and, UInt16.toBitVec_not, BitVec.getLsbD_and, BitVec.getLsbD_not,
      decide_eq_true hk, Bool.true_and]
  constructor
  · intro h k hk used
    have same := congrArg (fun v : Word => v.toBitVec.getLsbD k) h
    simp only [masked _ hk, used] at same
    simpa using same
  · intro h
    apply UInt16.toBitVec_inj.1
    apply BitVec.eq_of_getLsbD_eq
    intro k hk
    rw [masked w hk, masked w' hk]
    cases used : unused.toBitVec.getLsbD k with
    | true => simp
    | false => rw [h k hk used]

end LittleComputer
