import LittleComputer.Machine.Step

/-! The count of executed instructions. Everything done in the course of an instruction leaves
it alone, and a completed one adds exactly one, so runs can be measured by it. -/
namespace LittleComputer.Machine
variable {σ ε ε' α β : Type}

/-- Success or failure, the count afterwards is the count before. -/
def KeepsCount (x : Action σ ε α) : Prop :=
  ∀ s, match x s with
    | .ok _ s' => s'.1.cycles = s.1.cycles
    | .error _ s' => s'.1.cycles = s.1.cycles

namespace KeepsCount

theorem pure (a : α) : KeepsCount (pure a : Action σ ε α) := fun _ => rfl

theorem throw (e : ε) : KeepsCount (throw e : Action σ ε α) := fun _ => rfl

theorem bind {x : Action σ ε α} {f : α → Action σ ε β} (hx : KeepsCount x)
    (hf : ∀ a, KeepsCount (f a)) : KeepsCount (x >>= f) := by
  intro s
  have hs := hx s
  simp only [Bind.bind, EStateM.bind]
  cases h : x s with
  | error e s' => simpa [h] using hs
  | ok a s' =>
    have hs' := hf a s'
    rw [h] at hs
    cases h' : f a s' <;> simp_all

theorem adaptExcept {x : Action σ ε α} (f : ε → ε') (hx : KeepsCount x) :
    KeepsCount (x.adaptExcept f) := by
  intro s
  have hs := hx s
  simp only [EStateM.adaptExcept]
  cases h : x s <;> simpa [h] using hs

theorem load (con : Console σ) (a : Word) : KeepsCount (load con a) := by
  rintro ⟨⟨regs, mem, state, cycles⟩, c⟩
  simp only [Machine.load]
  cases Memory.read con a (mem, c) <;> rfl

theorem serve (con : Console σ) (v : TrapVector) : KeepsCount (serve con v) := by
  rintro ⟨⟨regs, mem, state, cycles⟩, c⟩
  simp only [Machine.serve]
  cases Trap.run con mem v (regs, c) <;> rfl

theorem store (a v : Word) : KeepsCount (store a v : Action σ ε Unit) := fun _ => rfl

theorem inRegs (f : Registers → α) : KeepsCount (inRegs f : Action σ ε α) := fun _ => rfl

theorem onRegs (f : Registers → Registers) : KeepsCount (onRegs f : Action σ ε Unit) :=
  fun _ => rfl

theorem enter (s : State) : KeepsCount (enter s : Action σ ε Unit) := fun _ => rfl

theorem execute (con : Console σ) (i : Instruction Reg) : KeepsCount (execute con i) := by
  cases i with
  | add | and | not | lea | br | jmp => exact fun _ => rfl
  | ld | ldr => exact bind (inRegs _) fun _ => bind (load con _) fun _ => onRegs _
  | ldi =>
    exact bind (inRegs _) fun _ => bind (load con _) fun _ => bind (load con _) fun _ => onRegs _
  | st | str => exact bind (inRegs _) fun _ => bind (inRegs _) fun _ => store _ _
  | sti =>
    exact bind (inRegs _) fun _ => bind (load con _) fun _ => bind (inRegs _) fun _ => store _ _
  | jsr | jsrr => exact bind (onRegs _) fun _ => onRegs _
  | trap =>
    refine bind (onRegs _) fun _ => bind (serve con _) fun outcome => ?_
    cases outcome
    · exact pure ()
    · exact enter _

theorem requireRunning : KeepsCount (requireRunning : Action σ Error Unit) := by
  rintro ⟨m, c⟩
  simp only [Machine.requireRunning]
  cases m.isRunning <;> rfl

theorem decodeOrFault (pc word : Word) : KeepsCount (decodeOrFault pc word : Action σ Error _) := by
  unfold Machine.decodeOrFault
  split
  · exact pure _
  · exact bind (enter _) fun _ => throw _

end KeepsCount

/-- All of an instruction but the counting. -/
def attempt (con : Console σ) : Action σ Error (Instruction Reg) := do
  requireRunning
  let pc ← inRegs (·.pc)
  let word ← (load con pc).adaptExcept .console
  onRegs (·.advance)
  let i ← decodeOrFault pc word
  (execute con i).adaptExcept .console
  return i

private theorem attempt_keepsCount (con : Console σ) : KeepsCount (attempt con) := by
  refine .bind .requireRunning fun _ => .bind (.inRegs _) fun _ =>
    .bind (.adaptExcept _ (.load con _)) fun _ => .bind (.onRegs _) fun _ =>
    .bind (.decodeOrFault _ _) fun i => .bind (.adaptExcept _ (.execute con i)) fun _ => .pure i

private theorem step_eq (con : Console σ) :
    step con = attempt con >>= fun i => count >>= fun _ => pure i := by
  simp [step, attempt]

/-- A completed instruction adds one to the count. -/
theorem cycles_of_step {con : Console σ} {s s' : Machine × σ} {i : Instruction Reg}
    (h : step con s = .ok i s') : s'.1.cycles = s.1.cycles + 1 := by
  rw [step_eq] at h
  have hs := attempt_keepsCount con s
  simp only [Bind.bind, EStateM.bind] at h
  cases ha : attempt con s with
  | error e t => simp [ha] at h
  | ok j t =>
    rw [ha] at h hs
    simp only [count, pure, EStateM.pure, EStateM.Result.ok.injEq] at h
    rw [← h.2, ← hs]

/-- A failed one adds nothing. -/
theorem cycles_of_step_error {con : Console σ} {s s' : Machine × σ} {e : Error}
    (h : step con s = .error e s') : s'.1.cycles = s.1.cycles := by
  rw [step_eq] at h
  have hs := attempt_keepsCount con s
  simp only [Bind.bind, EStateM.bind] at h
  cases ha : attempt con s with
  | error e' t =>
    rw [ha] at h hs
    simp only [EStateM.Result.error.injEq] at h
    rw [← h.2, hs]
  | ok j t => simp [ha, count, pure, EStateM.pure] at h

end LittleComputer.Machine
