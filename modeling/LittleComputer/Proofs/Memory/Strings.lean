import LittleComputer.Memory

/-! Where a string in memory ends. Addresses go round the end of memory, and a scan that meets no
zero word stops when it has seen every cell. -/
namespace LittleComputer.Memory

/-- The word `i` places behind an address, round the end of memory. -/
def wordAfter (m : Memory) (a : Word) (i : Nat) : Word :=
  m.cells.get ⟨(a.toNat + i) % memorySize, Nat.mod_lt _ (by decide)⟩

theorem peek_add (m : Memory) (a : Word) (i : Nat) :
    m.peek (a + UInt16.ofNat i) = m.wordAfter a i := by
  apply congrArg m.cells.get
  apply Fin.ext
  change (a + UInt16.ofNat i).toNat = (a.toNat + i) % 65536
  rw [UInt16.toNat_add, UInt16.toNat_ofNat']
  omega

/-- The string at an address has `n` words: the first zero word is behind them, or they are all
words there are. -/
structure HasLength (m : Memory) (a : Word) (n : Nat) : Prop where
  le : n ≤ 65536
  nonzero : ∀ i, i < n → m.wordAfter a i ≠ 0
  zero : n < 65536 → m.wordAfter a n = 0

theorem HasLength.unique {m : Memory} {a : Word} {n k : Nat} (h : HasLength m a n)
    (h' : HasLength m a k) : k = n := by
  rcases Nat.lt_trichotomy k n with hlt | heq | hgt
  · exact absurd (h'.zero (Nat.lt_of_lt_of_le hlt h.le)) (h.nonzero k hlt)
  · exact heq
  · exact absurd (h.zero (Nat.lt_of_lt_of_le hgt h'.le)) (h'.nonzero n hgt)

/-- A scan from offset `i` stops at a zero word or after `n` words, and passes none before. -/
theorem zeroFrom_spec (m : Memory) (a : Word) (i n : Nat) :
    i ≤ m.zeroFrom a i n ∧ m.zeroFrom a i n ≤ i + n ∧
      (∀ j, i ≤ j → j < m.zeroFrom a i n → m.wordAfter a j ≠ 0) ∧
      (m.zeroFrom a i n < i + n → m.wordAfter a (m.zeroFrom a i n) = 0) := by
  induction n generalizing i with
  | zero =>
    rw [zeroFrom]
    exact ⟨Nat.le_refl i, Nat.le_refl i, fun j hi hj => by omega, fun h => by omega⟩
  | succ n ih =>
    by_cases hz : m.wordAfter a i = 0
    · have here : m.zeroFrom a i (n + 1) = i := by simp [zeroFrom, peek_add, hz]
      rw [here]
      exact ⟨Nat.le_refl i, Nat.le_add_right i _, fun j hi hj => by omega, fun _ => hz⟩
    · have on : m.zeroFrom a i (n + 1) = m.zeroFrom a (i + 1) n := by simp [zeroFrom, peek_add, hz]
      obtain ⟨above, below, nonzero, zero⟩ := ih (i + 1)
      rw [on]
      refine ⟨by omega, by omega, ?_, fun h => zero (by omega)⟩
      intro j hi hj
      rcases Nat.eq_or_lt_of_le hi with rfl | hlt
      · exact hz
      · exact nonzero j hlt hj

theorem extent_hasLength (m : Memory) (a : Word) : HasLength m a (m.extent a) := by
  obtain ⟨-, below, nonzero, zero⟩ := m.zeroFrom_spec a 0 memorySize
  rw [Nat.zero_add] at below zero
  exact ⟨below, fun j => nonzero j j.zero_le, zero⟩

/-- Every address has a string, which is as long as the words up to the first zero. -/
theorem hasLength_iff {m : Memory} {a : Word} {n : Nat} : HasLength m a n ↔ n = m.extent a := by
  constructor
  · exact (m.extent_hasLength a).unique
  · rintro rfl
    exact m.extent_hasLength a

theorem stringAt_eq (m : Memory) (a : Word) :
    m.stringAt a = (List.range (m.extent a)).map (m.wordAfter a) := by
  rw [stringAt, funext (m.peek_add a)]

/-- Words stand one behind another from an address on, round the end of memory. -/
def Holds (m : Memory) (a : Word) (words : List Word) : Prop :=
  ∀ (i : Nat) (h : i < words.length), m.wordAfter a i = words[i]

/-- The string is what stands before a zero word, whatever stands behind it. -/
theorem stringAt_of_holds {m : Memory} {a : Word} {words : List Word}
    (nonzero : ∀ w ∈ words, w ≠ 0) (fits : words.length < 65536) (h : m.Holds a (words ++ [0])) :
    m.stringAt a = words := by
  have own (i : Nat) (hi : i < words.length) : m.wordAfter a i = words[i] := by
    rw [h i (by simp; omega), List.getElem_append_left hi]
  have ends : m.HasLength a words.length := by
    refine ⟨Nat.le_of_lt fits, fun i hi => ?_, fun _ => ?_⟩
    · rw [own i hi]
      exact nonzero _ (List.getElem_mem hi)
    · rw [h words.length (by simp), List.getElem_concat_length rfl]
  rw [stringAt_eq, ← hasLength_iff.1 ends]
  apply List.ext_getElem
  · rw [List.length_map, List.length_range]
  · intro i hi hw
    rw [List.getElem_map, List.getElem_range, own i hw]

end LittleComputer.Memory
