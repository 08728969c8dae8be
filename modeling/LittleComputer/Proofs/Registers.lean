import LittleComputer.Register

/-! What is found in a register file after each kind of write. -/
namespace LittleComputer.Registers

theorem get_set (rs : Registers) (r : Reg) (v : Word) (q : Reg) :
    (rs.set r v).get q = if r = q then v else rs.get q := by
  change (rs.gpr.set r.index v)[q.index.val] = _
  rw [Vector.getElem_set]
  simp only [Fin.val_inj]
  congr 1
  rw [eq_iff_iff, Reg.mk.injEq]

@[simp]
theorem get_set_self (rs : Registers) (r : Reg) (v : Word) : (rs.set r v).get r = v := by
  simp [get_set]

theorem get_set_of_ne {r q : Reg} (h : q ≠ r) (rs : Registers) (v : Word) :
    (rs.set r v).get q = rs.get q := by
  rw [get_set, if_neg h.symm]

@[simp]
theorem cond_set (rs : Registers) (r : Reg) (v : Word) : (rs.set r v).cond = rs.cond := rfl

/-- A flagged write sets the flags by the value written. -/
theorem setFlagged_eq (rs : Registers) (r : Reg) (v : Word) :
    rs.setFlagged r v = { rs.set r v with cond := Flag.ofWord v } := by
  simp [setFlagged, refreshFlag]

@[simp]
theorem get_setFlagged (rs : Registers) (r : Reg) (v : Word) (q : Reg) :
    (rs.setFlagged r v).get q = (rs.set r v).get q := rfl

@[simp]
theorem cond_setFlagged (rs : Registers) (r : Reg) (v : Word) :
    (rs.setFlagged r v).cond = Flag.ofWord v := by
  rw [setFlagged_eq]

@[simp]
theorem get_advance (rs : Registers) (r : Reg) : rs.advance.get r = rs.get r := rfl

@[simp]
theorem cond_advance (rs : Registers) : rs.advance.cond = rs.cond := rfl

end LittleComputer.Registers
