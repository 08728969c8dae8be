import LittleComputer.Proofs.Memory.Reading

/-! What is found in memory after words have been put there. Words that do not fit are refused as a
whole. -/
namespace LittleComputer.Memory

/-- Memories are equal if they hold the same word at every address. -/
theorem ext_peek {m m' : Memory} (h : ∀ a, m.peek a = m'.peek a) : m = m' := by
  obtain ⟨cells⟩ := m
  obtain ⟨cells'⟩ := m'
  congr 1
  apply Vector.ext
  intro k hk
  have hn : (UInt16.ofNat k).toNat = k := UInt16.toNat_ofNat_of_lt' hk
  have ha := h (UInt16.ofNat k)
  change cells[(UInt16.ofNat k).toNat] = cells'[(UInt16.ofNat k).toNat] at ha
  simp only [hn] at ha
  exact ha

theorem peek_place (m : Memory) (a : Nat) (words : List Word) (b : Word) :
    (m.place a words).peek b =
      if a ≤ b.toNat then words[b.toNat - a]?.getD (m.peek b) else m.peek b := by
  induction words generalizing m a with
  | nil => simp [place]
  | cons w words ih =>
    have hb := address_lt b
    rw [place]
    split
    next ha =>
      have hset : (Memory.mk (m.cells.set a w ha)).peek b =
          if a = b.toNat then w else m.peek b := by
        change (m.cells.set a w ha)[b.toNat] = _
        rw [Vector.getElem_set]
        rfl
      rw [ih, hset]
      rcases Nat.lt_trichotomy a b.toNat with hlt | heq | hgt
      · have hk : b.toNat - a = (b.toNat - (a + 1)) + 1 := by omega
        rw [if_pos (by omega), if_neg (by omega), if_pos (by omega), hk, List.getElem?_cons_succ]
      · have hk : b.toNat - a = 0 := by omega
        rw [if_neg (by omega), if_pos heq, if_pos (by omega), hk, List.getElem?_cons_zero,
          Option.getD_some]
      · rw [if_neg (by omega), if_neg (by omega), if_neg (by omega)]
    next ha => rw [if_neg (by omega)]

section
variable {m m' : Memory} {origin : Word} {words : List Word}

theorem load_of_fits (h : origin.toNat + words.length ≤ 65536) (m : Memory) :
    load origin words m = .ok () (m.place origin.toNat words) := by
  have fits : origin.toNat + words.length ≤ memorySize := h
  rw [load, if_pos fits]
  rfl

theorem load_of_not_fits (h : ¬ origin.toNat + words.length ≤ 65536) (m : Memory) :
    load origin words m = .error () m := by
  have beyond : ¬ origin.toNat + words.length ≤ memorySize := h
  rw [load, if_neg beyond]
  rfl

/-- Words are refused exactly if they would run past the end, and then nothing has been written. -/
theorem load_eq_error :
    load origin words m = .error () m' ↔ 65536 < origin.toNat + words.length ∧ m' = m := by
  by_cases h : origin.toNat + words.length ≤ 65536
  · rw [load_of_fits h]
    exact iff_of_false nofun fun ⟨beyond, _⟩ => Nat.not_le.2 beyond h
  · rw [load_of_not_fits h]
    simp [Nat.not_le.1 h, eq_comm]

theorem load?_of_fits (h : origin.toNat + words.length ≤ 65536) (m : Memory) :
    m.load? origin words = some (m.place origin.toNat words) := by
  simp only [load?, load_of_fits h]

theorem load?_eq_none : m.load? origin words = none ↔ 65536 < origin.toNat + words.length := by
  by_cases h : origin.toNat + words.length ≤ 65536
  · simp [load?_of_fits h, h]
  · simp [load?, load_of_not_fits h, Nat.not_le.1 h]

end

end LittleComputer.Memory
