import LittleComputer.Proofs.Image.Loading
import LittleComputer.Proofs.Machine.Stepping
import LittleComputer.Proofs.Machine.Trace

/-! The life of a machine, over any calls of the entry points one after another. What a single
instruction can do to the state and to the count decides what a whole history can. -/
namespace LittleComputer.Machine
variable {σ κ τ : Type}

/-- What an instruction may do to the state. -/
structure Event.Lawful (e : Event) : Prop where
  stopped : e.before.state ≠ .running →
    e.result = .error (.notRunning e.before.state) ∧ e.after = e.before
  halts : e.before.state = .running → (e.after.state = .halted ↔ e.result = .ok (.trap .halt))
  faults : e.before.state = .running →
    (e.after.state = .faulted ↔ ∃ pc word cause, e.result = .error (.fault pc word cause))

section
variable {con : Console σ} {m m' : Machine} {c c' : σ}

theorem lawful_of_ok {i : Instruction Reg} (h : step con (m, c) = .ok i (m', c')) :
    Event.Lawful ⟨m, .ok i, m'⟩ := by
  obtain ⟨running, w, mem, c₁, m₁, -, -, hx, rfl⟩ := step_eq_ok h
  have hs : m₁.state = if i = .trap .halt then .halted else m.state :=
    (state_of_execute hx).trans rfl
  rw [running] at hs
  constructor
  · exact fun stopped => absurd running stopped
  · intro _
    by_cases hi : i = .trap .halt <;> simp [hs, hi]
  · intro _
    by_cases hi : i = .trap .halt <;> simp [hs, hi]

theorem lawful_of_error {e : Error} (h : step con (m, c) = .error e (m', c')) :
    Event.Lawful ⟨m, .error e, m'⟩ := by
  cases step_eq_error h with
  | stopped stopped =>
    exact ⟨fun _ => ⟨rfl, rfl⟩, fun running => absurd running stopped,
      fun running => absurd running stopped⟩
  | fetch running =>
    exact ⟨fun stopped => absurd running stopped, by simp [running], by simp [running]⟩
  | decode running =>
    exact ⟨fun stopped => absurd running stopped, by simp, by simp⟩
  | execute running hm hd hx =>
    have hs : m'.state = .running := by
      rcases execute_eq_error hx with ⟨-, -, rfl⟩ | ⟨v, regs, -, -, rfl⟩
      · exact running
      · exact running
    exact ⟨fun stopped => absurd running stopped, by simp [hs], by simp [hs]⟩

end

/-- Events one after another, each on the machine that the one before has left. -/
def Linked : Machine → List Event → Machine → Prop
  | m, [], m' => m' = m
  | m, e :: evs, m' => e.before = m ∧ Linked e.after evs m'

theorem Linked.append {m m₁ m' : Machine} {evs evs' : List Event} (h : Linked m evs m₁)
    (h' : Linked m₁ evs' m') : Linked m (evs ++ evs') m' := by
  induction evs generalizing m with
  | nil =>
    cases h
    exact h'
  | cons e evs ih => exact ⟨h.1, ih h.2⟩

/-- The number of completed instructions. -/
def completed (evs : List Event) : Nat := evs.countP (·.result.isOk)

namespace Loop
variable {l : Loop σ τ} {m m' : Machine} {c : σ} {t : τ} {evs : List Event} {returned : Bool}

theorem Trace.linked (h : l.Trace m c t evs m' returned) : Linked m evs m' := by
  induction h with
  | here | left => exact rfl
  | failed => exact ⟨rfl, rfl⟩
  | done _ _ _ ih => exact ⟨rfl, ih⟩

theorem Trace.lawful (h : l.Trace m c t evs m' returned) : ∀ e ∈ evs, e.Lawful := by
  induction h with
  | here | left => simp
  | failed _ hs => simp only [List.forall_mem_singleton, lawful_of_error hs]
  | done _ hs _ ih => exact List.forall_mem_cons.2 ⟨lawful_of_ok hs, ih⟩

/-- The count grows by the completed instructions. -/
theorem Trace.cycles_eq (h : l.Trace m c t evs m' returned) :
    m'.cycles = m.cycles + UInt64.ofNat (completed evs) := by
  induction h with
  | here | left => simp [completed]
  | failed _ hs =>
    have hc := cycles_of_step_error hs
    simpa [completed, Except.isOk, Except.toBool] using hc
  | done _ hs _ ih =>
    have hc := cycles_of_step hs
    simp only at hc
    rw [ih, hc]
    simp [completed, Except.isOk, Except.toBool, UInt64.add_assoc, UInt64.add_comm]

end Loop

/-- A call of one of the entry points, with all that it is given but the machine. -/
inductive Call : Type 1
  | step {σ : Type} (con : Console σ) (c : σ)
  | run {σ : Type} (con : Console σ) (c : σ)
  | runLimited {σ : Type} (con : Console σ) (budget : UInt64) (c : σ)
  | runUntil {κ : Type} (con : Console (Cancellable κ)) (budget : Option UInt64)
      (w : Cancellable κ)
  | runWatched {κ τ : Type} (con : Console (Cancellable κ)) (budget : Option UInt64)
      (watch : Watcher τ) (notes : τ) (w : Cancellable κ)

namespace Call
variable {m m' : Machine}

/-- The machine that a call leaves when it returns. -/
def left? : Call → Machine → Option Machine
  | step con c, m => some (leaves (Machine.step con (m, c)))
  | run con c, m => (run? con (m, c)).map leaves
  | runLimited con budget c, m => some (leaves (Machine.runLimited con budget (m, c)))
  | runUntil con budget w, m => (runUntil? con budget (m, w)).map (·.machine)
  | runWatched con budget watch notes w, m =>
    (runWatched? con budget watch notes (m, w)).map (·.machine)

/-- What a call has done to a machine so far, or until it returned. -/
def Trace : Call → Machine → List Event → Machine → Bool → Prop
  | step con c, m => (Loop.once con).Trace m c true
  | run con c, m => (Loop.whileRunning con).Trace m c ()
  | runLimited con budget c, m => (Loop.below con (limitFrom m.cycles budget)).Trace m c ()
  | runUntil con budget w, m =>
    (Loop.watched con m.cycles (budget.map (limitFrom m.cycles)) fun _ () => ((), false)).Trace
      m w ()
  | runWatched con budget watch notes w, m =>
    (Loop.watched con m.cycles (budget.map (limitFrom m.cycles)) watch).Trace m w notes

/-- A call does nothing and says so. It leaves the machine as it is, and the console too,
whichever that is: one that writes down its calls has none to write down. -/
def Refused : Call → Machine → Prop
  | step con c, m => Machine.step con (m, c) = .error (.notRunning m.state) (m, c)
  | run con c, m => run? con (m, c) = some (.ok 0 (m, c))
  | runLimited con budget c, m => Machine.runLimited con budget (m, c) = .ok 0 (m, c)
  | runUntil con budget w, m => runUntil? con budget (m, w) = some ⟨m, w, (), .ok ⟨0, .halted⟩⟩
  | runWatched con budget watch notes w, m =>
    runWatched? con budget watch notes (m, w) = some ⟨m, w, notes, .ok ⟨0, .halted⟩⟩

theorem trace_of_left? {call : Call} (h : call.left? m = some m') :
    ∃ evs, call.Trace m evs m' true := by
  cases call with
  | step con c =>
    cases h
    exact Loop.trace_of_step con (m, c)
  | run con c =>
    simp only [left?, run?, Option.map_map, Option.map_eq_some_iff] at h
    obtain ⟨r, hr, rfl⟩ := h
    obtain ⟨evs, ht⟩ := Loop.trace_of_runOut? con (m, c) hr
    cases r <;> exact ⟨evs, ht⟩
  | runLimited con budget c =>
    obtain ⟨evs, ht⟩ := Loop.trace_of_runTo con (limitFrom m.cycles budget) (m, c)
    simp only [left?, Machine.runLimited, Option.some.injEq] at h
    subst h
    refine ⟨evs, ?_⟩
    cases hr : runTo con (limitFrom m.cycles budget) (m, c) <;> rw [hr] at ht <;> exact ht
  | runUntil con budget w =>
    obtain ⟨ending, he, rfl⟩ := Option.map_eq_some_iff.1 h
    exact Loop.trace_of_watchFrom? con m.cycles _ _ m w () he
  | runWatched con budget watch notes w =>
    obtain ⟨ending, he, rfl⟩ := Option.map_eq_some_iff.1 h
    exact Loop.trace_of_watchFrom? con m.cycles _ watch m w notes he

/-- There is one way for a call to return. -/
theorem Trace.unique {call : Call} {m'' : Machine} {evs evs' : List Event}
    (h : call.Trace m evs m' true) (h' : call.Trace m evs' m'' true) : evs' = evs ∧ m'' = m' := by
  cases call <;> exact Loop.Trace.unique h h'

/-- Every call is a loop. -/
theorem Trace.exists_loop {call : Call} {evs : List Event} {returned : Bool}
    (h : call.Trace m evs m' returned) :
    ∃ (σ τ : Type) (l : Loop σ τ) (c : σ) (t : τ), l.Trace m c t evs m' returned := by
  cases call <;> exact ⟨_, _, _, _, _, h⟩

/-- A machine that has stopped refuses every call. -/
theorem refused_of_stopped (call : Call) (h : m.state ≠ .running) : call.Refused m := by
  have hr : m.isRunning = false := by simpa [isRunning] using h
  cases call with
  | step => exact step_of_stopped h
  | run =>
    rw [Refused, run?, runOut?]
    simp [hr]
  | runLimited =>
    rw [Refused, Machine.runLimited, runTo]
    simp [hr]
  | runUntil =>
    rw [Refused, runUntil?, runWatched?, watchFrom?]
    simp [checkpoint, hr, Except.map]
  | runWatched =>
    rw [Refused, runWatched?, watchFrom?]
    simp [checkpoint, hr, Except.map]

end Call

/-- Calls that were made on a machine, one after another, and have returned, with all that
happened in them. -/
inductive History : Machine → List Call → List Event → Machine → Prop
  | nil {m : Machine} : History m [] [] m
  | cons {call : Call} {calls : List Call} {evs evs' : List Event} {m m₁ m' : Machine}
      (trace : call.Trace m evs m₁ true) (later : History m₁ calls evs' m') :
      History m (call :: calls) (evs ++ evs') m'

/-- The machine is at `m` after these events, between two calls or in the middle of one. -/
def Point (m₀ : Machine) (evs : List Event) (m : Machine) : Prop :=
  ∃ calls evs₁ m₁ call evs₂ returned, History m₀ calls evs₁ m₁ ∧
    Call.Trace call m₁ evs₂ m returned ∧ evs = evs₁ ++ evs₂

/-- Calls that return have a history. -/
theorem exists_history {m m' : Machine} {calls : List Call}
    (h : calls.foldlM (fun m call => call.left? m) m = some m') :
    ∃ evs, History m calls evs m' := by
  induction calls generalizing m with
  | nil =>
    cases h
    exact ⟨[], .nil⟩
  | cons call calls ih =>
    rw [List.foldlM_cons, Option.bind_eq_bind, Option.bind_eq_some_iff] at h
    obtain ⟨m₁, hleft, h⟩ := h
    obtain ⟨evs, trace⟩ := Call.trace_of_left? hleft
    obtain ⟨evs', later⟩ := ih h
    exact ⟨evs ++ evs', .cons trace later⟩

/-- And no other. -/
theorem History.unique {m m' m'' : Machine} {calls : List Call} {evs evs' : List Event}
    (h : History m calls evs m') (h' : History m calls evs' m'') : evs' = evs ∧ m'' = m' := by
  induction h generalizing evs' m'' with
  | nil =>
    cases h'
    exact ⟨rfl, rfl⟩
  | cons trace _ ih =>
    cases h' with
    | cons trace' later' =>
      obtain ⟨rfl, rfl⟩ := trace.unique trace'
      obtain ⟨rfl, rfl⟩ := ih later'
      exact ⟨rfl, rfl⟩

theorem completed_append (evs evs' : List Event) :
    completed (evs ++ evs') = completed evs + completed evs' := List.countP_append

/-- What holds of a machine before and after a part of its life. -/
structure Lived (m : Machine) (evs : List Event) (m' : Machine) : Prop where
  linked : Linked m evs m'
  lawful : ∀ e ∈ evs, e.Lawful
  cycles_eq : m'.cycles = m.cycles + UInt64.ofNat (completed evs)

theorem Lived.append {m m₁ m' : Machine} {evs evs' : List Event} (h : Lived m evs m₁)
    (h' : Lived m₁ evs' m') : Lived m (evs ++ evs') m' where
  linked := h.linked.append h'.linked
  lawful := List.forall_mem_append.2 ⟨h.lawful, h'.lawful⟩
  cycles_eq := by
    rw [h'.cycles_eq, h.cycles_eq, completed_append, UInt64.ofNat_add, UInt64.add_assoc]

theorem Call.Trace.lived {call : Call} {m m' : Machine} {evs : List Event} {returned : Bool}
    (h : call.Trace m evs m' returned) : Lived m evs m' := by
  obtain ⟨σ, τ, l, c, t, ht⟩ := h.exists_loop
  exact ⟨ht.linked, ht.lawful, ht.cycles_eq⟩

theorem History.lived {m m' : Machine} {calls : List Call} {evs : List Event}
    (h : History m calls evs m') : Lived m evs m' := by
  induction h with
  | nil => exact ⟨rfl, by simp, by simp [completed]⟩
  | cons trace _ ih => exact trace.lived.append ih

/-- What holds of a machine at every point of its life. -/
structure LifeCycle (m₀ : Machine) (evs : List Event) (m : Machine) : Prop where
  linked : Linked m₀ evs m
  lawful : ∀ e ∈ evs, e.Lawful
  counted : completed evs < UInt64.size → m.cycles.toNat = completed evs
  refused : m.state ≠ .running → ∀ call : Call, call.Refused m

private theorem cycles_loaded (images : List Image) (m : Machine) :
    (images.foldl loadImage m).cycles = m.cycles := by
  rw [loadImages_eq]

/-- The life of a machine that is switched on and loaded with images. Calls that return have one
history, and at every point of a history the life cycle is kept. -/
theorem lifeCycle_of_images (images : List Image) :
    (∀ calls m, calls.foldlM (fun m call => Call.left? call m) (images.foldl loadImage initial) =
        some m →
      ∃ evs, History (images.foldl loadImage initial) calls evs m ∧
        ∀ evs' m', History (images.foldl loadImage initial) calls evs' m' → evs' = evs ∧ m' = m) ∧
      ∀ evs m, Point (images.foldl loadImage initial) evs m →
        LifeCycle (images.foldl loadImage initial) evs m := by
  constructor
  · intro calls m h
    obtain ⟨evs, history⟩ := exists_history h
    exact ⟨evs, history, fun _ _ => history.unique⟩
  · rintro evs m ⟨calls, evs₁, m₁, call, evs₂, returned, history, trace, rfl⟩
    have lived := history.lived.append trace.lived
    have count : m.cycles = UInt64.ofNat (completed (evs₁ ++ evs₂)) := by
      rw [lived.cycles_eq, cycles_loaded]
      exact UInt64.zero_add _
    exact {
      linked := lived.linked
      lawful := lived.lawful
      counted := fun room => by rw [count, UInt64.toNat_ofNat_of_lt' room]
      refused := fun stopped call => call.refused_of_stopped stopped }

end LittleComputer.Machine
