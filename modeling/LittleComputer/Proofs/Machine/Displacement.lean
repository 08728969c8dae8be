import LittleComputer.Proofs.Image.Loading
import LittleComputer.Proofs.Machine.Budget
import LittleComputer.Proofs.Machine.HiddenStatus

/-! Images that do not begin where the machine starts. Empty memory is a slide of branches that are
never taken, so a machine comes to the image anyway, only later. -/
namespace LittleComputer.Machine
variable {σ κ : Type} {lead : UInt64}

/-- The machine with `lead` more instructions counted, whether or not the count starts over. -/
def aheadBy (lead : UInt64) (m : Machine) : Machine := { m with cycles := m.cycles + lead }

/-- The same machine, which has executed `lead` more instructions. -/
structure Later (lead : UInt64) (m m' : Machine) : Prop where
  regs : m'.regs = m.regs
  mem : m'.mem = m.mem
  state : m'.state = m.state
  cycles : m'.cycles.toNat = m.cycles.toNat + lead.toNat

/-- The same result, after `lead` more instructions. -/
inductive EndsLater (lead : UInt64) :
    EStateM.Result Error (Machine × σ) UInt64 → EStateM.Result Error (Machine × σ) UInt64 → Prop
  | ok {n n' : UInt64} {m m' : Machine} {c : σ} (more : n'.toNat = n.toNat + lead.toNat)
      (later : Later lead m m') : EndsLater lead (.ok n (m, c)) (.ok n' (m', c))
  | error (e : Error) {m m' : Machine} {c : σ} (later : Later lead m m') :
      EndsLater lead (.error e (m, c)) (.error e (m', c))

section Ahead

/-- Two machines of which one is ahead, each on the same console. -/
abbrev Ahead (lead : UInt64) : Machine × σ → Machine × σ → Prop :=
  Alongside fun m m' => m' = m.aheadBy lead

private theorem load_ahead (con : Console σ) (a : Word) :
    Parallel Eq (Ahead lead) (load con a) (load con a) := by
  rintro ⟨m, c⟩ ⟨_, _⟩ ⟨rfl, rfl⟩
  simp only [load, aheadBy]
  cases Memory.read con a (m.mem, c) with
  | ok v s => exact .ok v ⟨rfl, rfl⟩
  | error e s => exact .error rfl ⟨rfl, rfl⟩

private theorem serve_ahead (con : Console σ) (v : TrapVector) :
    Parallel Eq (Ahead lead) (serve con v) (serve con v) := by
  rintro ⟨m, c⟩ ⟨_, _⟩ ⟨rfl, rfl⟩
  simp only [serve, aheadBy]
  cases Trap.run con m.mem v (m.regs, c) with
  | ok o s => exact .ok o ⟨rfl, rfl⟩
  | error e s => exact .error rfl ⟨rfl, rfl⟩

private theorem lockstep_ahead (con : Console σ) : Lockstep Eq con con (Ahead lead) where
  regs states := by rw [states.1, aheadBy]
  state states := by rw [states.1, aheadBy]
  onRegs states f := ⟨by rw [states.1]; rfl, states.2⟩
  store states a v := ⟨by rw [states.1]; rfl, states.2⟩
  enter states state := ⟨by rw [states.1]; rfl, states.2⟩
  count := by
    rintro s t ⟨later, same⟩
    refine ⟨?_, same⟩
    simp only [later, aheadBy]
    rw [UInt64.add_assoc, UInt64.add_comm lead, UInt64.add_assoc]
  load := load_ahead con

/-- The count does not decide what an instruction does. -/
theorem step_ahead (con : Console σ) :
    Parallel (Error.Matches Eq) (Ahead lead) (step con) (step con) :=
  (lockstep_ahead con).step (serve_ahead con)

variable {con : Console σ} {limit : UInt64}

theorem toNat_aheadBy {m : Machine} (room : m.cycles.toNat + lead.toNat < UInt64.size) :
    (m.aheadBy lead).cycles.toNat = m.cycles.toNat + lead.toNat := by
  rw [aheadBy, UInt64.toNat_add]
  exact Nat.mod_eq_of_lt room

theorem later_aheadBy {m : Machine} (room : m.cycles.toNat + lead.toNat < UInt64.size) :
    Later lead m (m.aheadBy lead) :=
  ⟨rfl, rfl, rfl, toNat_aheadBy room⟩

/-- Nor does it decide how a run ends, if the limit is as far ahead. -/
theorem runTo_ahead (room : limit.toNat + lead.toNat < UInt64.size) {s t : Machine × σ}
    (states : Ahead lead s t) (within : s.1.cycles ≤ limit) :
    Matches Eq (Alongside (Later lead)) (runTo con limit s) (runTo con (limit + lead) t) := by
  have far : (limit + lead).toNat = limit.toNat + lead.toNat := by
    rw [UInt64.toNat_add]
    exact Nat.mod_eq_of_lt room
  have later {s t : Machine × σ} (states : Ahead lead s t) (within : s.1.cycles ≤ limit) :
      Later lead s.1 t.1 := by
    rw [states.1]
    rw [UInt64.le_iff_toNat_le] at within
    exact later_aheadBy (by omega)
  have below {s t : Machine × σ} (states : Ahead lead s t) (within : s.1.cycles ≤ limit) :
      t.1.cycles < limit + lead ↔ s.1.cycles < limit := by
    rw [UInt64.lt_iff_toNat_lt, UInt64.lt_iff_toNat_lt, far, (later states within).cycles]
    omega
  fun_induction runTo con limit s generalizing t with
  | case1 s go i s' hs ih =>
    obtain ⟨running, more⟩ := go
    obtain ⟨t', ht, states'⟩ := (step_ahead con).of_ok states hs
    have count : s'.1.cycles.toNat = s.1.cycles.toNat + 1 := by
      rw [cycles_of_step hs, toNat_add_one_of_lt more]
    rw [isRunning_iff, ← (later states within).state] at running
    rw [runTo_of_step running ((below states within).2 more) ht]
    rw [UInt64.lt_iff_toNat_lt] at more
    exact ih states' (by rw [UInt64.le_iff_toNat_le]; omega)
  | case2 s go e s' hs =>
    obtain ⟨running, more⟩ := go
    obtain ⟨_, t', ht, errors, states'⟩ := (step_ahead con).of_error states hs
    have count : s'.1.cycles ≤ limit := by
      rw [cycles_of_step_error hs]
      exact within
    rw [isRunning_iff, ← (later states within).state] at running
    rw [runTo_of_step_error running ((below states within).2 more) ht]
    exact .error errors.eq.symm ⟨later states' count, states'.2⟩
  | case3 s stop =>
    rw [isRunning_iff, ← (later states within).state, ← below states within] at stop
    rw [runTo_of_not stop]
    exact .ok () ⟨later states within, states.2⟩

end Ahead

/-- A word that has never been written is a branch that is never taken. -/
theorem step_of_empty (con : Console σ) {m : Machine} (running : m.state = .running)
    (elsewhere : m.regs.pc ≠ keyStatus) (empty : m.mem.peek m.regs.pc = 0) (c : σ) :
    step con (m, c) =
      .ok (.br 0 0) ({ m with regs := m.regs.advance, cycles := m.cycles + 1 }, c) := by
  have fetch : Memory.read con m.regs.pc (m.mem, c) = .ok 0 (m.mem, c) := by
    rw [Memory.read_of_ne elsewhere, empty]
  have untaken : execute con (.br 0 0) (m.fetched m.mem, c) = .ok () (m.fetched m.mem, c) := by
    simp [execute, onRegs_apply, Registers.selectedBy]
  rw [step_of_execute running fetch decode_status_none untaken]
  rfl

/-- A machine that only has an image in its memory, about to execute the word at `pc`. -/
def loadedAt (pc : Word) (i : Image) : Machine :=
  { initial with regs := { Registers.initial with pc } }.loadImage i

section Slide
variable {i : Image} {k : Nat}

/-- A machine that has come down `k` words from where it started. -/
def slid (i : Image) (k : Nat) : Machine :=
  (loadedAt (startAddress + UInt16.ofNat k) i).aheadBy (UInt64.ofNat k)

theorem toNat_pc_slid (within : k < 0xD000) : (slid i k).regs.pc.toNat = 0x3000 + k := by
  change (startAddress + UInt16.ofNat k).toNat = _
  rw [UInt16.toNat_add, UInt16.toNat_ofNat', show startAddress.toNat = 0x3000 from rfl]
  omega

private theorem step_slid (con : Console σ) (c : σ) (above : 0x3000 + k < i.origin.toNat)
    (high : i.origin.toNat ≤ 0xFDFF) :
    step con (slid i k, c) = .ok (.br 0 0) (slid i (k + 1), c) := by
  have pc : (slid i k).regs.pc.toNat = 0x3000 + k := toNat_pc_slid (by omega)
  have elsewhere : (slid i k).regs.pc ≠ keyStatus := by
    intro h
    rw [h, show keyStatus.toNat = 0xFE00 from rfl] at pc
    omega
  have outside : (slid i k).regs.pc.toNat ∉ i.range := by
    rw [pc]
    exact fun inside => Nat.not_le.2 above inside.1
  have empty : (slid i k).mem.peek (slid i k).regs.pc = 0 :=
    (peek_loadImage_of_notMem outside _).trans (Memory.peek_empty _)
  rw [step_of_empty con rfl elsewhere empty]
  simp only [slid, loadedAt, aheadBy, loadImage, Registers.advance, UInt16.ofNat_add,
    UInt64.ofNat_add, UInt16.add_assoc, UInt64.add_assoc]
  rfl

variable (con : Console σ) (c : σ) {j : Nat} (above : 0x3000 + (j + k) ≤ i.origin.toNat)
  (high : i.origin.toNat ≤ 0xFDFF)
include above high

private theorem after_slid : after con k (slid i j, c) = (slid i (j + k), c) := by
  induction k generalizing j with
  | zero => rfl
  | succ k ih =>
    have first : step con (slid i j, c) = .ok (.br 0 0) (slid i (j + 1), c) :=
      step_slid con c (by omega) high
    have order : j + (k + 1) = j + 1 + k := by omega
    rw [after, first, order]
    exact ih (by omega)

private theorem runTo_slid {limit : UInt64} (within : j + k ≤ limit.toNat) :
    runTo con limit (slid i j, c) = runTo con limit (slid i (j + k), c) := by
  induction k generalizing j with
  | zero => rfl
  | succ k ih =>
    have first : step con (slid i j, c) = .ok (.br 0 0) (slid i (j + 1), c) :=
      step_slid con c (by omega) high
    have count : (slid i j).cycles.toNat = j := by
      change (0 + UInt64.ofNat j).toNat = j
      rw [UInt64.zero_add]
      exact UInt64.toNat_ofNat_of_lt' (Nat.lt_of_le_of_lt (by omega) limit.toNat_lt)
    have below : (slid i j).cycles < limit := by
      rw [UInt64.lt_iff_toNat_lt, count]
      omega
    have order : j + (k + 1) = j + 1 + k := by omega
    rw [runTo_of_step rfl below first, order]
    exact ih (by omega) (by omega)

end Slide

/-- How far behind the start of the machine an image begins. -/
def leadOf (i : Image) : UInt64 := UInt64.ofNat (i.origin.toNat - 0x3000)

theorem counted_later {r r' : EStateM.Result Error (Machine × σ) Unit}
    (h : Matches Eq (Alongside (Later lead)) r r') :
    EndsLater lead (counted 0 r) (counted 0 r') := by
  cases h with
  | @ok _ s t states =>
    obtain ⟨m, c⟩ := s
    obtain ⟨m', _⟩ := t
    obtain ⟨later, rfl⟩ := states
    refine .ok ?_ later
    rw [UInt64.sub_zero, UInt64.sub_zero, later.cycles]
  | @error e _ s t errors states =>
    obtain ⟨m, c⟩ := s
    obtain ⟨m', _⟩ := t
    obtain ⟨later, rfl⟩ := states
    rw [errors]
    exact .error _ later

section Displaced
variable {i : Image} (low : 0x3000 ≤ i.origin.toNat)
include low

theorem toNat_leadOf : (leadOf i).toNat = i.origin.toNat - 0x3000 := by
  have bound := i.origin.toNat_lt
  have size : UInt64.size = 2 ^ 64 := rfl
  exact UInt64.toNat_ofNat_of_lt' (by omega)

/-- The end of the slide is where the image begins. -/
theorem slid_leadOf : slid i (leadOf i).toNat = (loadedAt i.origin i).aheadBy (leadOf i) := by
  have origin : startAddress + UInt16.ofNat (leadOf i).toNat = i.origin := by
    rw [toNat_leadOf low, show startAddress = UInt16.ofNat 0x3000 from rfl, ← UInt16.ofNat_add,
      Nat.add_sub_of_le low, UInt16.ofNat_toNat]
  rw [slid, origin, UInt64.ofNat_toNat]

theorem runLimited_later (high : i.origin.toNat ≤ 0xFDFF) {budget : UInt64}
    (room : (leadOf i).toNat + budget.toNat < UInt64.size) (con : Console σ) (c : σ) :
    EndsLater (leadOf i) (runLimited con budget (loadedAt i.origin i, c))
      (runLimited con (leadOf i + budget) (initial.loadImage i, c)) := by
  have lead := toNat_leadOf low
  have fresh (budget : UInt64) : limitFrom 0 budget = budget := by simp [limitFrom]
  have enough : 0 + (leadOf i).toNat ≤ (leadOf i + budget).toNat := by
    rw [UInt64.toNat_add, Nat.mod_eq_of_lt room]
    omega
  have slide : runTo con (leadOf i + budget) (initial.loadImage i, c) =
      runTo con (budget + leadOf i) ((loadedAt i.origin i).aheadBy (leadOf i), c) := by
    have whole := runTo_slid con c (i := i) (by omega) high enough
    rw [Nat.zero_add, slid_leadOf low] at whole
    rw [UInt64.add_comm budget]
    exact whole
  have started : Ahead (leadOf i) (loadedAt i.origin i, c)
      ((loadedAt i.origin i).aheadBy (leadOf i), c) := ⟨rfl, rfl⟩
  have room' : budget.toNat + (leadOf i).toNat < UInt64.size := by omega
  have ended : Matches Eq (Alongside (Later (leadOf i))) (runTo con budget (loadedAt i.origin i, c))
      (runTo con (leadOf i + budget) (initial.loadImage i, c)) := by
    rw [slide]
    exact runTo_ahead room' started UInt64.zero_le
  rw [runLimited_eq, runLimited_eq]
  change EndsLater _ (counted 0 (runTo con (limitFrom 0 _) _))
    (counted 0 (runTo con (limitFrom 0 _) _))
  rw [fresh, fresh]
  exact counted_later ended

end Displaced

/-- The calls of a limited run, in order, with the errors of those that fail. -/
def callsOfRun (con : Console (Cancellable κ)) (budget : UInt64) (s : Machine × Cancellable κ) :
    List Console.Entry :=
  (stateLeft (runLimited con.journaled budget (s.1, s.2.noted []))).2.calls

theorem EndsLater.console {r r' : EStateM.Result Error (Machine × σ) UInt64}
    (h : EndsLater lead r r') : (stateLeft r').2 = (stateLeft r).2 := by
  cases h with
  | ok | error => rfl

/-- What it means that an image is reached from the start of the machine: the run ends as one that
begins with the image does, only later, and nothing is called on the way there. -/
structure SlidesTo (con : Console σ) (budget : UInt64) (i : Image) (c : σ) : Prop where
  ends : EndsLater (leadOf i) (runLimited con budget (loadedAt i.origin i, c))
    (runLimited con (leadOf i + budget) (initial.loadImage i, c))
  calls : callsOfRun con.beside (leadOf i + budget) (initial.loadImage i, ⟨c, false⟩) =
    callsOfRun con.beside budget (loadedAt i.origin i, ⟨c, false⟩)
  /-- No word of the image is executed before. -/
  before : ∀ k < (leadOf i).toNat,
    (after con k (initial.loadImage i, c)).1.regs.pc.toNat = 0x3000 + k
  silent : ∀ k ≤ (leadOf i).toNat,
    callsAfter con.beside k (initial.loadImage i, ⟨c, false⟩) = []
  arrives : after con (leadOf i).toNat (initial.loadImage i, c) =
    ((loadedAt i.origin i).aheadBy (leadOf i), c)

/-- An image that begins behind the start of the machine, but below the keyboard, is reached over
empty memory. It does the same there as if the machine had started with it. -/
theorem displaced_image_reached {i : Image} (low : 0x3000 ≤ i.origin) (high : i.origin ≤ 0xFDFF)
    {budget : UInt64} (room : i.origin.toNat - 0x3000 + budget.toNat < UInt64.size)
    (con : Console σ) (c : σ) : SlidesTo con budget i c := by
  replace low : 0x3000 ≤ i.origin.toNat := UInt16.le_iff_toNat_le.1 low
  replace high : i.origin.toNat ≤ 0xFDFF := UInt16.le_iff_toNat_le.1 high
  have lead := toNat_leadOf low
  have room' : (leadOf i).toNat + budget.toNat < UInt64.size := by
    rw [lead]
    exact room
  have slide {σ : Type} (con : Console σ) (c : σ) {k : Nat} (hk : k ≤ (leadOf i).toNat) :
      after con k (initial.loadImage i, c) = (slid i k, c) := by
    have whole := after_slid con c (i := i) (j := 0) (k := k) (by omega) high
    rwa [Nat.zero_add] at whole
  constructor
  case ends => exact runLimited_later low high room' con c
  case calls =>
    have noted := runLimited_later low high room' con.beside.journaled
      (Cancellable.noted ⟨c, false⟩ [])
    exact congrArg Cancellable.calls noted.console
  case before =>
    intro k hk
    rw [slide con c (Nat.le_of_lt hk)]
    exact toNat_pc_slid (by omega)
  case silent =>
    intro k hk
    rw [callsAfter, slide con.beside.journaled (Cancellable.noted ⟨c, false⟩ []) hk]
    exact Cancellable.calls_noted ⟨c, false⟩ []
  case arrives => rw [slide con c (Nat.le_refl _), slid_leadOf low]

/-- A reserved word two words further on, where the machine faults after two instructions. -/
theorem displaced_image_reached_of_reserved :
    let i : Image := ⟨0x3002, [0xD000], by decide, rfl, rfl⟩
    let con : Console Console.Buffer := Console.Buffer.console
    let c : Console.Buffer := {}
    SlidesTo con 1 i c ∧
      ∃ m, runLimited con 3 (initial.loadImage i, c) =
        .error (.fault 0x3002 0xD000 (.reserved .res 0xD000)) (m, c) ∧ m.cycles.toNat = 2 := by
  intro i con c
  have slides : SlidesTo con 1 i c :=
    displaced_image_reached (by decide) (by decide) (by decide) con c
  refine ⟨slides, ?_⟩
  have word : (loadedAt 0x3002 i).mem.peek 0x3002 = 0xD000 := by
    have inside : (0x3002 : Word).toNat ∈ i.range := by simp [i, Image.range, Image.span]
    exact (Option.some.inj (peek_loadImage_of_mem inside _)).symm
  have fetch : Memory.read con 0x3002 ((loadedAt 0x3002 i).mem, c) =
      .ok 0xD000 ((loadedAt 0x3002 i).mem, c) := by
    rw [Memory.read_of_ne (by decide), word]
  have faulted := step_of_decode_error (m := loadedAt 0x3002 i) rfl fetch
    (show Instruction.decode 0xD000 = .error (.reserved .res 0xD000) from rfl)
  have run : runTo con (limitFrom 0 1) (loadedAt 0x3002 i, c) = _ :=
    runTo_of_step_error rfl (by decide) faulted
  have ended : runLimited con 1 (loadedAt 0x3002 i, c) = _ :=
    (runLimited_eq con 1 _).trans (congrArg (counted 0) run)
  have lead : leadOf i = 2 := by decide
  have ends := slides.ends
  rw [ended, lead, show (2 : UInt64) + 1 = 3 from rfl] at ends
  generalize runLimited con 3 (initial.loadImage i, c) = r at ends
  cases ends with
  | error _ later => exact ⟨_, rfl, later.cycles⟩

end LittleComputer.Machine
