import LittleComputer.Trap.Routine
import LittleComputer.Proofs.Sequence

/-! The parts of a service routine: its calls, which leave the registers alone, and the key it
puts into R0. -/
namespace LittleComputer.Trap
variable {σ α β : Type}

theorem calling_of_ok {x : EStateM Console.Error σ α} {a : α} {c c' : σ} (h : x c = .ok a c')
    (rs : Registers) : calling x (rs, c) = .ok a (rs, c') := by
  rw [calling, h]

theorem calling_of_error {x : EStateM Console.Error σ α} {e : Console.Error} {c c' : σ}
    (h : x c = .error e c') (rs : Registers) : calling x (rs, c) = .error e (rs, c') := by
  rw [calling, h]

theorem calling_bind_eq_ok {x : EStateM Console.Error σ α}
    {f : α → EStateM Console.Error (Registers × σ) β} {rs : Registers} {s' : Registers × σ} {c : σ}
    {b : β} : (calling x >>= f) (rs, c) = .ok b s' ↔
      ∃ a c₁, x c = .ok a c₁ ∧ f a (rs, c₁) = .ok b s' := by
  simp only [bind_eq_ok, calling]
  cases x c <;> grind

theorem calling_bind_eq_error {x : EStateM Console.Error σ α}
    {f : α → EStateM Console.Error (Registers × σ) β} {rs rs' : Registers} {c c' : σ}
    {e : Console.Error} :
    (calling x >>= f) (rs, c) = .error e (rs', c') ↔
      (x c = .error e c' ∧ rs' = rs) ∨
        ∃ a c₁, x c = .ok a c₁ ∧ f a (rs, c₁) = .error e (rs', c') := by
  simp only [bind_eq_error, calling]
  cases x c <;> grind

theorem calling_bind (x : EStateM Console.Error σ α) (f : α → EStateM Console.Error σ β) :
    calling (x >>= f) = calling x >>= fun a => calling (f a) := by
  funext ⟨rs, c⟩
  simp only [calling, Bind.bind, EStateM.bind]
  cases x c <;> rfl

theorem receive_bind {f : Unit → EStateM Console.Error (Registers × σ) β} {key : Byte}
    {rs : Registers} {c : σ} :
    (receive key >>= f) (rs, c) = f () (rs.setFlagged .r0 key.toUInt16, c) := rfl

theorem get_bind {f : Registers × σ → EStateM Console.Error (Registers × σ) β}
    (s : Registers × σ) : (get >>= f) s = f s s := rfl

/-- Only the halting routine ends otherwise than by going back. -/
theorem outcome_eq {con : Console σ} {mem : Memory} {v : TrapVector} {s s' : Registers × σ}
    {o : Outcome} (h : run con mem v s = .ok o s') : o = if v = .halt then .halt else .resume := by
  cases v <;> simp only [run, bind_eq_ok, pure_eq_ok] at h <;> grind

/-- Prompt for a key and wait for it. -/
def asking (con : Console σ) : EStateM Console.Error σ Byte := do
  con.writeBytes promptText
  con.flush
  con.readKey

/-- The prompting routine asks for a key, shows it and receives it. -/
theorem run_prompt (con : Console σ) (mem : Memory) : run con mem .prompt = (do
    let key ← calling (asking con)
    calling (con.writeByte key)
    receive key
    calling con.flush
    return .resume) := by
  simp only [run, asking, calling_bind, bind_assoc]

/-- Whether a routine receives a key. -/
def receives : TrapVector → Bool
  | .getc | .prompt => true
  | .out | .puts | .putsp | .halt => false

/-- A routine that has come to its end has written R0 if it receives a key, and nothing else. -/
theorem regs_of_run {con : Console σ} {mem : Memory} {v : TrapVector} {rs rs' : Registers}
    {c c' : σ} {o : Outcome} (h : run con mem v (rs, c) = .ok o (rs', c')) :
    if receives v then ∃ key : Byte, rs' = rs.setFlagged .r0 key.toUInt16 else rs' = rs := by
  cases v with
  | getc =>
    simp only [run, calling_bind_eq_ok, receive_bind, pure_eq_ok] at h
    obtain ⟨key, c₁, -, ⟨⟩, c₂, -, -, h⟩ := h
    cases h
    exact ⟨key, rfl⟩
  | prompt =>
    simp only [run, calling_bind_eq_ok, receive_bind, pure_eq_ok] at h
    obtain ⟨⟨⟩, c₁, -, ⟨⟩, c₂, -, key, c₃, -, ⟨⟩, c₄, -, ⟨⟩, c₅, -, -, h⟩ := h
    cases h
    exact ⟨key, rfl⟩
  | out | puts | putsp | halt =>
    simp only [run, get_bind, calling_bind_eq_ok, pure_eq_ok] at h
    obtain ⟨⟨⟩, c₁, -, ⟨⟩, c₂, -, -, h⟩ := h
    cases h
    exact rfl

end LittleComputer.Trap
