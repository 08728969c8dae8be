import LittleComputer.Memory

/-! What is found in memory after a write, and what a program gets by reading it. Only a read of
the keyboard status calls the console, and a call that fails changes no word. -/
namespace LittleComputer.Memory
variable {σ : Type}

/-- At power-on every word is zero. -/
theorem peek_empty (a : Word) : ({} : Memory).peek a = 0 := by
  simp [peek, Vector.get]

theorem peek_set (m : Memory) (a v b : Word) :
    (m.set a v).peek b = if a = b then v else m.peek b := by
  have hb := address_lt b
  change (m.cells.set a.toNat v (address_lt a))[b.toNat] = _
  rw [Vector.getElem_set]
  simp only [UInt16.toNat_inj]
  rfl

/-- The status a program reads once the keyboard has answered. -/
def statusOf : Option Byte → Word
  | some _ => keyReady
  | none => 0

@[simp]
theorem peek_latch_status (m : Memory) (key : Option Byte) :
    (m.latch key).peek keyStatus = statusOf key := by
  cases key with
  | none => simp [latch, peek_set, statusOf]
  | some k => simp [latch, peek_set, statusOf, show keyData ≠ keyStatus by decide]

/-- A key that the keyboard has answered with is latched, and without one the data stays. -/
theorem peek_latch_data (m : Memory) (key : Option Byte) :
    (m.latch key).peek keyData = (key.map UInt8.toUInt16).getD (m.peek keyData) := by
  cases key with
  | none => simp [latch, peek_set, show keyStatus ≠ keyData by decide]
  | some k => simp [latch, peek_set]

theorem statusOf_ne_status (key : Option Byte) : statusOf key ≠ keyStatus := by
  cases key with
  | none => decide
  | some k => exact (by decide : keyReady ≠ keyStatus)

theorem read_of_ne {a : Word} (h : a ≠ keyStatus) (con : Console σ) (m : Memory) (c : σ) :
    read con a (m, c) = .ok (m.peek a) (m, c) := by
  simp [read, h]

/-- A program reads back what has been stored, but for the keyboard status. -/
theorem read_set {a : Word} (h : a ≠ keyStatus) (con : Console σ) (m : Memory) (v : Word) (c : σ) :
    read con a (m.set a v, c) = .ok v (m.set a v, c) := by
  rw [read_of_ne h, peek_set, if_pos rfl]

/-- A read of the status is as good as the poll that it makes. -/
theorem read_status_of_ok {con : Console σ} {c c' : σ} {key : Option Byte}
    (h : con.pollKey c = .ok key c') (m : Memory) :
    read con keyStatus (m, c) = .ok (statusOf key) (m.latch key, c') := by
  simp [read, h]

theorem read_eq_ok {con : Console σ} {a v : Word} {m m' : Memory} {c c' : σ}
    (h : read con a (m, c) = .ok v (m', c')) :
    (a ≠ keyStatus ∧ v = m.peek a ∧ m' = m ∧ c' = c) ∨
      (a = keyStatus ∧ ∃ key,
        con.pollKey c = .ok key c' ∧ v = statusOf key ∧ m' = m.latch key) := by
  by_cases ha : a = keyStatus
  · subst ha
    cases hp : con.pollKey c with
    | error e c₁ => simp [read, hp] at h
    | ok key c₁ =>
      rw [read_status_of_ok hp] at h
      cases h
      exact .inr ⟨rfl, key, rfl, rfl, rfl⟩
  · rw [read_of_ne ha] at h
    cases h
    exact .inl ⟨ha, rfl, rfl, rfl⟩

theorem read_eq_error {con : Console σ} {a : Word} {e : Console.Error} {m m' : Memory} {c c' : σ}
    (h : read con a (m, c) = .error e (m', c')) :
    a = keyStatus ∧ con.pollKey c = .error e c' ∧ m' = m := by
  by_cases ha : a = keyStatus
  · subst ha
    cases hp : con.pollKey c with
    | error e c₁ =>
      simp only [read, beq_self_eq_true, if_true, hp] at h
      cases h
      exact ⟨rfl, rfl, rfl⟩
    | ok key c₁ => simp [read, hp] at h
  · simp [read_of_ne ha] at h

end LittleComputer.Memory
