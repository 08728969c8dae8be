import LittleComputer.Machine.Run

/-! Watched runs, instruction by instruction. A run is a number of completed instructions and
then the first thing that ends it, and nothing else decides its result. -/
namespace LittleComputer.Machine
variable {κ τ : Type}

/-- A watched run between two instructions. -/
structure Pause (κ τ : Type) where
  machine : Machine
  console : Cancellable κ
  notes : τ

/-- The console before instruction number `n`, pumped if its pump is due. -/
def pumped (con : Console (Cancellable κ)) (n : Nat) (w : Cancellable κ) :
    EStateM.Result Console.Error (Cancellable κ) Unit :=
  if n % 1024 = 0 then con.pump w else .ok () w

/-- The console once the watcher, shown the machine, may have raised the flag. -/
def Pause.watched (watch : Watcher τ) (p : Pause κ τ) (w : Cancellable κ) : Cancellable κ :=
  { w with cancelled := w.cancelled || (watch p.machine p.notes).2 }

/-- A run that started at `p₀` has completed `n` instructions and is now at `p`. -/
inductive Reached (con : Console (Cancellable κ)) (watch : Watcher τ) (p₀ : Pause κ τ) :
    Nat → Pause κ τ → Prop
  | start : Reached con watch p₀ 0 p₀
  | step {n : Nat} {p : Pause κ τ} {w w' : Cancellable κ} {i : Instruction Reg} {m' : Machine}
      (before : Reached con watch p₀ n p) (pump : pumped con n p.console = .ok () w)
      (done : step con (p.machine, p.watched watch w) = .ok i (m', w')) :
      Reached con watch p₀ (n + 1) ⟨m', w', (watch p.machine p.notes).1⟩

section
variable (con : Console (Cancellable κ)) (budget : Option UInt64) (watch : Watcher τ)
  (start : UInt64) (n : Nat) (p : Pause κ τ)

/-- The budget of a run that began at a count of `start` is used up. -/
def UsedUp (m : Machine) : Prop :=
  ∃ max, budget = some max ∧ min (start.toNat + max.toNat) (UInt64.size - 1) ≤ m.cycles.toNat

/-- Nothing is against the next instruction, and `w` is the console it finds. -/
structure Clear (w : Cancellable κ) : Prop where
  running : p.machine.state = .running
  pump : pumped con n p.console = .ok () w
  lowered : w.cancelled = false
  within : ¬ UsedUp budget start p.machine

/-- The ways in which a run ends after `n` instructions. Each excludes those before it. -/
inductive Exit : Ending κ τ → Prop
  | halted (stopped : p.machine.state ≠ .running) :
      Exit ⟨p.machine, p.console, p.notes, .ok ⟨UInt64.ofNat n, .halted⟩⟩
  | pumpFailed {e : Console.Error} {w : Cancellable κ} (running : p.machine.state = .running)
      (due : n % 1024 = 0) (failed : con.pump p.console = .error e w) :
      Exit ⟨p.machine, w, p.notes, .error (.console e)⟩
  | cancelled {w : Cancellable κ} (running : p.machine.state = .running)
      (pump : pumped con n p.console = .ok () w) (raised : w.cancelled = true) :
      Exit ⟨p.machine, w, p.notes, .ok ⟨UInt64.ofNat n, .cancelled⟩⟩
  | cycleLimit {w : Cancellable κ} (running : p.machine.state = .running)
      (pump : pumped con n p.console = .ok () w) (lowered : w.cancelled = false)
      (usedUp : UsedUp budget start p.machine) :
      Exit ⟨p.machine, w, p.notes, .ok ⟨UInt64.ofNat n, .cycleLimit⟩⟩
  | interrupted {w w' : Cancellable κ} {m' : Machine} {e : Console.Error}
      (clear : Clear con budget start n p w)
      (failed : step con (p.machine, p.watched watch w) = .error (.console e) (m', w'))
      (kind : e.kind = .interrupted) (raised : w'.cancelled = true) :
      Exit ⟨m', w', (watch p.machine p.notes).1, .ok ⟨UInt64.ofNat n, .cancelled⟩⟩
  | failed {w w' : Cancellable κ} {m' : Machine} {e : Error}
      (clear : Clear con budget start n p w)
      (failed : step con (p.machine, p.watched watch w) = .error e (m', w'))
      (notInterrupted : ∀ cause, e = .console cause →
        cause.kind ≠ .interrupted ∨ w'.cancelled = false) :
      Exit ⟨m', w', (watch p.machine p.notes).1, .error e⟩

end

variable {con : Console (Cancellable κ)} {budget : Option UInt64} {watch : Watcher τ}
  {start : UInt64} {n : Nat} {p p' p₀ : Pause κ τ} {ending : Ending κ τ}

theorem pumped_of_due {w : Cancellable κ} (h : n % 1024 = 0) : pumped con n w = con.pump w :=
  if_pos h

theorem Reached.unique (h : Reached con watch p₀ n p) (h' : Reached con watch p₀ n p') :
    p' = p := by
  induction h generalizing p' with
  | start =>
    cases h'
    rfl
  | step _ pump done ih =>
    cases h' with
    | step before' pump' done' =>
      cases ih before'
      cases pump.symm.trans pump'
      cases done.symm.trans done'
      rfl

/-- The count tells how many instructions have been completed. -/
theorem Reached.cycles_eq (h : Reached con watch p₀ n p) :
    p.machine.cycles = p₀.machine.cycles + UInt64.ofNat n := by
  induction h with
  | start => simp
  | step _ _ done ih =>
    have hc := cycles_of_step done
    simp only at hc
    rw [hc, ih, UInt64.ofNat_add, UInt64.add_assoc]
    rfl

theorem limitFrom_toNat (start budget : UInt64) :
    (limitFrom start budget).toNat = min (start.toNat + budget.toNat) (UInt64.size - 1) := by
  have hs := start.toNat_lt
  have hb := budget.toNat_lt
  have size : UInt64.size = 2 ^ 64 := rfl
  rw [limitFrom]
  split
  next h =>
    rw [UInt64.lt_iff_toNat_lt, UInt64.toNat_add] at h
    change UInt64.size - 1 = _
    omega
  next h =>
    rw [UInt64.lt_iff_toNat_lt, UInt64.toNat_add] at h
    rw [UInt64.toNat_add]
    omega

theorem usedUp_iff (m : Machine) :
    UsedUp budget start m ↔ (budget.map (limitFrom start)).any (· ≤ m.cycles) = true := by
  cases budget <;> simp [UsedUp, UInt64.le_iff_toNat_le, limitFrom_toNat]

theorem due_iff (n : Nat) : UInt64.ofNat n % pumpInterval = 0 ↔ n % 1024 = 0 := by
  rw [← UInt64.toNat_inj, UInt64.toNat_mod, UInt64.toNat_ofNat']
  change n % 2 ^ 64 % 1024 = 0 ↔ _
  omega

section Checkpoint
variable {limit : Option UInt64} {m : Machine} {w w' : Cancellable κ}

private theorem checkpoint_of_stopped (executed : UInt64) (h : m.state ≠ .running) :
    checkpoint con executed limit m w = .stop (.ok .halted) w := by
  simp [checkpoint, isRunning, h]

private theorem checkpoint_of_running (running : m.state = .running) :
    checkpoint con (UInt64.ofNat n) limit m w =
      match pumped con n w with
      | .error e w => .stop (.error (.console e)) w
      | .ok () w =>
        if w.cancelled then .stop (.ok .cancelled) w
        else if limit.any (· ≤ m.cycles) then .stop (.ok .cycleLimit) w
        else .go w := by
  have hp : (if UInt64.ofNat n % pumpInterval = 0 then con.pump else pure ()) w =
      pumped con n w := by
    simp only [due_iff, pumped]
    split <;> rfl
  have hr : ¬ (!m.isRunning) = true := by simp [isRunning, running]
  rw [← hp]
  exact if_neg hr

end Checkpoint

/-- The count of a run that has completed `n` instructions, from a count of `start`. -/
private theorem sub_eq (h : p.machine.cycles = start + UInt64.ofNat n) :
    p.machine.cycles - start = UInt64.ofNat n := by
  rw [h, UInt64.add_comm, UInt64.add_sub_cancel]

section Clear
variable {w w' : Cancellable κ} {m' : Machine} (clear : Clear con budget start n p w)
  (counted : p.machine.cycles = start + UInt64.ofNat n)
include clear counted

private theorem checkpoint_of_clear :
    checkpoint con (p.machine.cycles - start) (budget.map (limitFrom start)) p.machine p.console =
      .go w := by
  have within := mt (usedUp_iff _).2 clear.within
  rw [sub_eq counted, checkpoint_of_running clear.running, clear.pump]
  simp only [clear.lowered, within, Bool.false_eq_true, if_false]

private theorem watchFrom?_of_step {i : Instruction Reg}
    (done : step con (p.machine, p.watched watch w) = .ok i (m', w')) :
    watchFrom? con start (budget.map (limitFrom start)) watch p.machine p.console p.notes =
      if m'.cycles = 0 then none
      else watchFrom? con start (budget.map (limitFrom start)) watch m' w'
        (watch p.machine p.notes).1 := by
  rw [Pause.watched, clear.lowered, Bool.false_or] at done
  rw [watchFrom?]
  simp only [checkpoint_of_clear clear counted]
  split
  next h =>
    cases h.symm.trans done
    rfl
  next h => cases h.symm.trans done

private theorem watchFrom?_of_step_error {e : Error}
    (failed : step con (p.machine, p.watched watch w) = .error e (m', w')) :
    watchFrom? con start (budget.map (limitFrom start)) watch p.machine p.console p.notes =
      some ⟨m', w', (watch p.machine p.notes).1,
        (endedBy e w'.cancelled).map fun reason => ⟨UInt64.ofNat n, reason⟩⟩ := by
  have hn : m'.cycles - start = UInt64.ofNat n :=
    (congrArg (· - start) (cycles_of_step_error failed)).trans (sub_eq counted)
  rw [Pause.watched, clear.lowered, Bool.false_or] at failed
  rw [watchFrom?]
  simp only [checkpoint_of_clear clear counted]
  split
  next h => cases h.symm.trans failed
  next h =>
    cases h.symm.trans failed
    rw [hn]

end Clear

/-- A run that has come to one of its ends goes no further. -/
theorem watchFrom?_of_exit (h : Exit con budget watch start n p ending)
    (counted : p.machine.cycles = start + UInt64.ofNat n) :
    watchFrom? con start (budget.map (limitFrom start)) watch p.machine p.console p.notes =
      some ending := by
  have hc := sub_eq counted
  cases h with
  | halted stopped =>
    rw [watchFrom?, hc, checkpoint_of_stopped _ stopped]
    rfl
  | pumpFailed running due failed =>
    rw [watchFrom?, hc, checkpoint_of_running running, pumped_of_due due, failed]
    rfl
  | cancelled running pump raised =>
    rw [watchFrom?, hc, checkpoint_of_running running, pump]
    simp only [raised]
    rfl
  | cycleLimit running pump lowered usedUp =>
    rw [watchFrom?, hc, checkpoint_of_running running, pump]
    simp only [lowered, (usedUp_iff _).1 usedUp]
    rfl
  | interrupted clear failed kind raised =>
    rw [watchFrom?_of_step_error clear counted failed, endedBy, if_pos ⟨kind, raised⟩]
    rfl
  | @failed w w' m' e clear failed notInterrupted =>
    have he : endedBy e w'.cancelled = .error e := by
      cases e with
      | notRunning | fault => rfl
      | console cause =>
        apply if_neg
        rintro ⟨kind, raised⟩
        rcases notInterrupted cause rfl with h | h
        · exact h kind
        · simp [raised] at h
    rw [watchFrom?_of_step_error clear counted failed, he]
    rfl

/-- The machine's count and the run's say the same. -/
theorem Exit.counts (h : Exit con budget watch start n p ending)
    (counted : p.machine.cycles = start + UInt64.ofNat n)
    (room : start.toNat + n < UInt64.size) :
    ending.machine.cycles.toNat = start.toNat + n ∧
      ∀ summary, ending.result = .ok summary → summary.executed.toNat = n := by
  have size : UInt64.size = 2 ^ 64 := rfl
  have small : (UInt64.ofNat n).toNat = n := UInt64.toNat_ofNat_of_lt' (by omega)
  have here : p.machine.cycles.toNat = start.toNat + n := by
    rw [counted, UInt64.toNat_add, small, Nat.mod_eq_of_lt (by omega)]
  cases h with
  | halted | cancelled | cycleLimit =>
    refine ⟨here, ?_⟩
    rintro _ ⟨⟩
    exact small
  | pumpFailed => exact ⟨here, nofun⟩
  | interrupted clear failed =>
    refine ⟨(congrArg UInt64.toNat (cycles_of_step_error failed)).trans here, ?_⟩
    rintro _ ⟨⟩
    exact small
  | failed clear failed =>
    exact ⟨(congrArg UInt64.toNat (cycles_of_step_error failed)).trans here, nofun⟩

/-- Either a run ends here or its next instruction completes. -/
theorem exit_or_step (con : Console (Cancellable κ)) (budget : Option UInt64) (watch : Watcher τ)
    (start : UInt64) (n : Nat) (p : Pause κ τ) :
    (∃ ending, Exit con budget watch start n p ending) ∨
      ∃ w i m' w', Clear con budget start n p w ∧
        step con (p.machine, p.watched watch w) = .ok i (m', w') := by
  by_cases running : p.machine.state = .running
  · cases pump : pumped con n p.console with
    | error e w =>
      by_cases due : n % 1024 = 0
      · exact .inl ⟨_, .pumpFailed running due ((pumped_of_due due).symm.trans pump)⟩
      · simp [pumped, due] at pump
    | ok u w =>
      cases lowered : w.cancelled with
      | true => exact .inl ⟨_, .cancelled running pump lowered⟩
      | false =>
        by_cases usedUp : UsedUp budget start p.machine
        · exact .inl ⟨_, .cycleLimit running pump lowered usedUp⟩
        · have clear : Clear con budget start n p w := ⟨running, pump, lowered, usedUp⟩
          cases hs : step con (p.machine, p.watched watch w) with
          | ok i s => exact .inr ⟨w, i, s.1, s.2, clear, hs⟩
          | error e s =>
            by_cases hi : ∃ cause, e = .console cause ∧ cause.kind = .interrupted ∧
                s.2.cancelled = true
            · obtain ⟨cause, rfl, kind, raised⟩ := hi
              exact .inl ⟨_, .interrupted clear hs kind raised⟩
            · refine .inl ⟨_, .failed clear hs ?_⟩
              intro cause he
              by_cases kind : cause.kind = .interrupted
              · exact .inr (Bool.eq_false_iff.2 fun raised => hi ⟨cause, he, kind, raised⟩)
              · exact .inl kind
  · exact .inl ⟨_, .halted running⟩

/-- Not both. -/
theorem not_exit_of_step {w w' : Cancellable κ} {i : Instruction Reg} {m' : Machine}
    (clear : Clear con budget start n p w)
    (done : step con (p.machine, p.watched watch w) = .ok i (m', w')) :
    ¬ Exit con budget watch start n p ending := by
  intro h
  cases h with
  | halted stopped => exact stopped clear.running
  | pumpFailed _ due failed => cases (clear.pump.symm.trans (pumped_of_due due)).trans failed
  | cancelled _ pump raised =>
    cases clear.pump.symm.trans pump
    cases clear.lowered.symm.trans raised
  | cycleLimit _ _ _ usedUp => exact clear.within usedUp
  | interrupted clear' failed =>
    cases clear.pump.symm.trans clear'.pump
    cases done.symm.trans failed
  | failed clear' failed =>
    cases clear.pump.symm.trans clear'.pump
    cases done.symm.trans failed

/-- Nothing ended the run before `n` instructions were completed. -/
def Unended (con : Console (Cancellable κ)) (budget : Option UInt64) (watch : Watcher τ)
    (p₀ : Pause κ τ) (n : Nat) : Prop :=
  ∀ k < n, ∀ q, Reached con watch p₀ k q →
    ∀ ending, ¬ Exit con budget watch p₀.machine.cycles k q ending

theorem Unended.succ {w w' : Cancellable κ} {i : Instruction Reg} {m' : Machine}
    (h : Unended con budget watch p₀ n) (reached : Reached con watch p₀ n p)
    (clear : Clear con budget p₀.machine.cycles n p w)
    (done : step con (p.machine, p.watched watch w) = .ok i (m', w')) :
    Unended con budget watch p₀ (n + 1) := by
  intro k hk q hq ending
  rcases Nat.lt_succ_iff_lt_or_eq.1 hk with hlt | rfl
  · exact h k hlt q hq ending
  · rw [reached.unique hq]
    exact not_exit_of_step clear done

private theorem wraps_iff {count : UInt64} (room : start.toNat + n < UInt64.size)
    (counted : count = start + UInt64.ofNat (n + 1)) :
    count = 0 ↔ ¬ start.toNat + (n + 1) < UInt64.size := by
  have size : UInt64.size = 2 ^ 64 := rfl
  rw [counted, ← UInt64.toNat_inj, UInt64.toNat_add, UInt64.toNat_ofNat']
  change _ = 0 ↔ _
  omega

/-- From any point of a run that has not ended, the loop finds the end that is first. -/
theorem exists_exit_of_watchFrom? (reached : Reached con watch p₀ n p)
    (unended : Unended con budget watch p₀ n) (room : p₀.machine.cycles.toNat + n < UInt64.size)
    (h : watchFrom? con p₀.machine.cycles (budget.map (limitFrom p₀.machine.cycles)) watch
      p.machine p.console p.notes = some ending) :
    ∃ n p, Reached con watch p₀ n p ∧ Exit con budget watch p₀.machine.cycles n p ending ∧
      p₀.machine.cycles.toNat + n < UInt64.size ∧ Unended con budget watch p₀ n := by
  -- Each instruction leaves the count less room, so the room is what the induction is on.
  induction hd : UInt64.size - (p₀.machine.cycles.toNat + n) generalizing n p with
  | zero => omega
  | succ d ih =>
    rcases exit_or_step con budget watch p₀.machine.cycles n p with
      ⟨e, hx⟩ | ⟨w, i, m', w', clear, done⟩
    · cases (watchFrom?_of_exit hx reached.cycles_eq).symm.trans h
      exact ⟨n, p, reached, hx, room, unended⟩
    · have next := reached.step clear.pump done
      rw [watchFrom?_of_step clear reached.cycles_eq done] at h
      by_cases hz : m'.cycles = 0
      · simp [hz] at h
      · rw [if_neg hz] at h
        have room' := Decidable.not_not.1 (mt (wraps_iff room next.cycles_eq).2 hz)
        exact ih next (unended.succ reached clear done) room' h (by omega)

theorem exists_exit_of_runWatched? {m : Machine} {w : Cancellable κ} {notes : τ}
    (h : runWatched? con budget watch notes (m, w) = some ending) :
    ∃ n p, Reached con watch ⟨m, w, notes⟩ n p ∧ Exit con budget watch m.cycles n p ending ∧
      m.cycles.toNat + n < UInt64.size := by
  have begun : Unended con budget watch ⟨m, w, notes⟩ 0 := nofun
  obtain ⟨n, p, reached, hx, room, -⟩ := exists_exit_of_watchFrom? .start begun m.cycles.toNat_lt h
  exact ⟨n, p, reached, hx, room⟩

/-- A run that has not ended after `n` instructions goes on from where they have led it. -/
theorem watchFrom?_of_reached (reached : Reached con watch p₀ n p)
    (unended : Unended con budget watch p₀ n) (room : p₀.machine.cycles.toNat + n < UInt64.size) :
    watchFrom? con p₀.machine.cycles (budget.map (limitFrom p₀.machine.cycles)) watch
        p₀.machine p₀.console p₀.notes =
      watchFrom? con p₀.machine.cycles (budget.map (limitFrom p₀.machine.cycles)) watch
        p.machine p.console p.notes := by
  induction reached with
  | start => rfl
  | @step n p w w' i m' before pump done ih =>
    -- The instruction that led here is the one the loop does, as nothing ended the run before it.
    have earlier : Unended con budget watch p₀ n := fun k hk => unended k (by omega)
    rw [ih earlier (by omega)]
    rcases exit_or_step con budget watch p₀.machine.cycles n p with
      ⟨e, hx⟩ | ⟨w₁, j, m₁, w₁', clear, done'⟩
    · exact absurd hx (unended n (by omega) p before e)
    · cases pump.symm.trans clear.pump
      cases done.symm.trans done'
      have next := before.step pump done
      rw [watchFrom?_of_step clear before.cycles_eq done, if_neg]
      exact fun hz => (wraps_iff (by omega) next.cycles_eq).1 hz room

/-- A watched run has a result just when, after some number of completed instructions and with
no overflow of the count, it comes to the first of its ends. -/
theorem runWatched?_eq_some (con : Console (Cancellable κ)) (budget : Option UInt64)
    (watch : Watcher τ) (m : Machine) (w : Cancellable κ) (notes : τ) (ending : Ending κ τ) :
    runWatched? con budget watch notes (m, w) = some ending ↔
      ∃ n p, Reached con watch ⟨m, w, notes⟩ n p ∧
        Exit con budget watch m.cycles n p ending ∧
        m.cycles.toNat + n < UInt64.size ∧ Unended con budget watch ⟨m, w, notes⟩ n := by
  constructor
  · intro h
    exact exists_exit_of_watchFrom? .start (fun k hk => absurd hk (by omega)) m.cycles.toNat_lt h
  · rintro ⟨n, p, reached, hx, room, unended⟩
    exact (watchFrom?_of_reached reached unended room).trans
      (watchFrom?_of_exit hx reached.cycles_eq)

end LittleComputer.Machine
