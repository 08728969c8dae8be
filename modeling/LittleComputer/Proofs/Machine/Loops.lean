import LittleComputer.Machine.Run

/-! The three loops, one turn at a time: what each makes of a machine that may not go on, of a
completed instruction and of a failed one. -/
namespace LittleComputer.Machine
variable {σ κ τ : Type}

@[simp]
theorem isRunning_iff (m : Machine) : m.isRunning = true ↔ m.state = .running := by
  simp [isRunning]

section Limited
variable {con : Console σ} {limit : UInt64} {s s' : Machine × σ}

theorem runTo_of_not (stop : ¬ (s.1.state = .running ∧ s.1.cycles < limit)) :
    runTo con limit s = .ok () s := by
  rw [runTo, if_neg]
  simpa using stop

theorem runTo_of_stopped (con : Console σ) (limit : UInt64) (h : s.1.state ≠ .running) :
    runTo con limit s = .ok () s :=
  runTo_of_not fun go => h go.1

variable (running : s.1.state = .running) (below : s.1.cycles < limit)
include running below

theorem runTo_of_step {i : Instruction Reg} (h : step con s = .ok i s') :
    runTo con limit s = runTo con limit s' := by
  rw [runTo, if_pos ⟨(isRunning_iff _).2 running, below⟩]
  split
  next hs =>
    cases hs.symm.trans h
    rfl
  next hs => cases hs.symm.trans h

theorem runTo_of_step_error {e : Error} (h : step con s = .error e s') :
    runTo con limit s = .error e s' := by
  rw [runTo, if_pos ⟨(isRunning_iff _).2 running, below⟩]
  split
  next hs => cases hs.symm.trans h
  next hs =>
    cases hs.symm.trans h
    rfl

end Limited

section Unlimited
variable {con : Console σ} {s s' : Machine × σ}

theorem runOut?_of_stopped (con : Console σ) (h : s.1.state ≠ .running) :
    runOut? con s = some (.ok () s) := by
  rw [runOut?, if_neg]
  simpa using h

variable (running : s.1.state = .running)
include running

theorem runOut?_of_step {i : Instruction Reg} (h : step con s = .ok i s') :
    runOut? con s = if s'.1.cycles = 0 then none else runOut? con s' := by
  rw [runOut?, if_pos ((isRunning_iff _).2 running)]
  split
  next hs =>
    cases hs.symm.trans h
    rfl
  next hs => cases hs.symm.trans h

theorem runOut?_of_step_error {e : Error} (h : step con s = .error e s') :
    runOut? con s = some (.error e s') := by
  rw [runOut?, if_pos ((isRunning_iff _).2 running)]
  split
  next hs => cases hs.symm.trans h
  next hs =>
    cases hs.symm.trans h
    rfl

end Unlimited

section Idle
variable {con : Console (Cancellable κ)} {w w' : Cancellable κ} (idle : con.pump w = .ok () w)
include idle

/-- What is found before an instruction when the pump does nothing. -/
theorem checkpoint_of_idle (executed : UInt64) (limit : Option UInt64) (m : Machine) :
    checkpoint con executed limit m w =
      if m.state = .running then
        if w.cancelled then .stop (.ok .cancelled) w
        else if limit.any (· ≤ m.cycles) then .stop (.ok .cycleLimit) w
        else .go w
      else .stop (.ok .halted) w := by
  have pumped : (if executed % pumpInterval = 0 then con.pump else pure ()) w = .ok () w := by
    split
    · exact idle
    · rfl
  rw [checkpoint, pumped]
  by_cases running : m.state = .running <;> simp [isRunning, running]

variable {executed : UInt64} {limit : Option UInt64} {m : Machine}

theorem checkpoint_eq_go :
    checkpoint con executed limit m w = .go w' ↔
      m.state = .running ∧ w.cancelled = false ∧ ¬ limit.any (· ≤ m.cycles) = true ∧ w' = w := by
  rw [checkpoint_of_idle idle]
  grind

theorem checkpoint_eq_stop {result : Except Error StopReason} :
    checkpoint con executed limit m w = .stop result w' ↔ w' = w ∧
      ((m.state ≠ .running ∧ result = .ok .halted) ∨
        (m.state = .running ∧ w.cancelled = true ∧ result = .ok .cancelled) ∨
        (m.state = .running ∧ w.cancelled = false ∧ limit.any (· ≤ m.cycles) = true ∧
          result = .ok .cycleLimit)) := by
  rw [checkpoint_of_idle idle]
  grind

end Idle

/-- With the flag down, an error is an error. -/
theorem endedBy_of_lowered (e : Error) : endedBy e false = .error e := by
  cases e <;> simp [endedBy]

section Watched
variable {con : Console (Cancellable κ)} {start : UInt64} {limit : Option UInt64}
  {watch : Watcher τ} {m m' : Machine} {w w₁ w' : Cancellable κ} {notes : τ}

theorem watchFrom?_of_stop {result : Except Error StopReason}
    (h : checkpoint con (m.cycles - start) limit m w = .stop result w') :
    watchFrom? con start limit watch m w notes =
      some ⟨m, w', notes, result.map fun reason => ⟨m.cycles - start, reason⟩⟩ := by
  rw [watchFrom?]
  simp only [h]

variable (go : checkpoint con (m.cycles - start) limit m w = .go w₁)
include go

theorem watchFrom?_of_go_of_step {i : Instruction Reg}
    (h : step con (m, { w₁ with cancelled := (watch m notes).2 }) = .ok i (m', w')) :
    watchFrom? con start limit watch m w notes =
      if m'.cycles = 0 then none
      else watchFrom? con start limit watch m' w' (watch m notes).1 := by
  rw [watchFrom?]
  simp only [go]
  split
  next hs =>
    cases hs.symm.trans h
    rfl
  next hs => cases hs.symm.trans h

theorem watchFrom?_of_go_of_step_error {e : Error}
    (h : step con (m, { w₁ with cancelled := (watch m notes).2 }) = .error e (m', w')) :
    watchFrom? con start limit watch m w notes =
      some ⟨m', w', (watch m notes).1,
        (endedBy e w'.cancelled).map fun reason => ⟨m'.cycles - start, reason⟩⟩ := by
  rw [watchFrom?]
  simp only [go]
  split
  next hs => cases hs.symm.trans h
  next hs =>
    cases hs.symm.trans h
    rfl

end Watched

/-- What a run says that began at a count of `start`: how many instructions there were. -/
def counted (start : UInt64) :
    EStateM.Result Error (Machine × σ) Unit → EStateM.Result Error (Machine × σ) UInt64
  | .ok () s => .ok (s.1.cycles - start) s
  | .error e s => .error e s

theorem runLimited_eq (con : Console σ) (budget : UInt64) (s : Machine × σ) :
    runLimited con budget s = counted s.1.cycles (runTo con (limitFrom s.1.cycles budget) s) := by
  rw [runLimited]
  cases runTo con (limitFrom s.1.cycles budget) s <;> rfl

theorem run?_eq (con : Console σ) (s : Machine × σ) :
    run? con s = (runOut? con s).map (counted s.1.cycles) := by
  rw [run?]
  rcases runOut? con s with _ | _ | _ <;> rfl

theorem counted_eq_ok {start n : UInt64} {r : EStateM.Result Error (Machine × σ) Unit}
    {s : Machine × σ} : counted start r = .ok n s ↔ r = .ok () s ∧ n = s.1.cycles - start := by
  cases r with
  | error e s' => simp [counted]
  | ok u s' =>
    simp only [counted, EStateM.Result.ok.injEq, true_and]
    grind

end LittleComputer.Machine
