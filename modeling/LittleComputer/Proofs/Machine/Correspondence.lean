import LittleComputer.Proofs.Console.Correspondence
import LittleComputer.Proofs.Machine.Loops

/-! One machine on two consoles that mirror each other. It goes through the same states on both,
executes the same instructions and fails together. -/
namespace LittleComputer
variable {σ τ α : Type} {E : Console.Error → Console.Error → Prop} {R : σ → τ → Prop}
  {con : Console σ} {con' : Console τ}

namespace Trap

theorem calling_parallel {x : EStateM Console.Error σ α} {y : EStateM Console.Error τ α}
    (h : Parallel E R x y) : Parallel E (Beside R) (calling x) (calling y) := by
  rintro ⟨rs, c⟩ ⟨_, d⟩ ⟨rfl, states⟩
  have called := h c d states
  simp only [calling]
  generalize x c = r, y d = r' at called
  cases called with
  | ok a states' => exact .ok a ⟨rfl, states'⟩
  | error errors states' => exact .error errors ⟨rfl, states'⟩

theorem receive_parallel (key : Byte) : Parallel E (Beside R) (receive key) (receive key) := by
  rintro ⟨rs, c⟩ ⟨_, d⟩ ⟨rfl, states⟩
  exact .ok () ⟨rfl, states⟩

private theorem get_parallel {f : Registers × σ → EStateM Console.Error (Registers × σ) α}
    {g : Registers × τ → EStateM Console.Error (Registers × τ) α}
    (h : ∀ rs c d, Parallel E (Beside R) (f (rs, c)) (g (rs, d))) :
    Parallel E (Beside R) (get >>= f) (get >>= g) := by
  rintro ⟨rs, c⟩ ⟨_, d⟩ ⟨rfl, states⟩
  exact h rs c d (rs, c) (rs, d) ⟨rfl, states⟩

theorem run_parallel (h : con.Mirrors E R con') (mem : Memory) (v : TrapVector) :
    Parallel E (Beside R) (run con mem v) (run con' mem v) := by
  have flush := calling_parallel h.flush
  have readKey := calling_parallel h.readKey
  have writeBytes bytes := calling_parallel (h.writeBytes bytes)
  cases v with
  | getc =>
    exact .bind readKey fun key => .bind (receive_parallel key) fun _ => .bind flush fun _ =>
      .pure _
  | out =>
    refine get_parallel fun rs _ _ => ?_
    exact .bind (calling_parallel (h.writeByte _)) fun _ => .bind flush fun _ => .pure _
  | puts | putsp =>
    refine get_parallel fun rs _ _ => ?_
    exact .bind (writeBytes _) fun _ => .bind flush fun _ => .pure _
  | prompt =>
    exact .bind (writeBytes _) fun _ => .bind flush fun _ => .bind readKey fun key =>
      .bind (calling_parallel (h.writeByte key)) fun _ => .bind (receive_parallel key) fun _ =>
      .bind flush fun _ => .pure _
  | halt => exact .bind (writeBytes _) fun _ => .bind flush fun _ => .pure _

end Trap

theorem Memory.read_parallel (h : con.Mirrors E R con') (a : Word) :
    Parallel E (Beside R) (read con a) (read con' a) := by
  rintro ⟨mem, c⟩ ⟨_, d⟩ ⟨rfl, states⟩
  by_cases ha : a = keyStatus
  · have polled := h.pollKey c d states
    simp only [read, ha, beq_self_eq_true, if_true]
    generalize con.pollKey c = r, con'.pollKey d = r' at polled
    cases polled with
    | ok key states' => exact .ok _ ⟨rfl, states'⟩
    | error errors states' => exact .error errors ⟨rfl, states'⟩
  · simp only [read, beq_iff_eq, ha, if_false]
    exact .ok _ ⟨rfl, states⟩

namespace Machine

/-- Errors of an instruction match if they are equal or come from matching console errors. -/
inductive Error.Matches (E : Console.Error → Console.Error → Prop) : Error → Error → Prop
  | notRunning (state : State) : Matches E (.notRunning state) (.notRunning state)
  | fault (pc word : Word) (cause : DecodeError) :
      Matches E (.fault pc word cause) (.fault pc word cause)
  | console {e e' : Console.Error} (causes : E e e') : Matches E (.console e) (.console e')

theorem Error.Matches.eq {e e' : Error} (h : Error.Matches Eq e e') : e' = e := by
  cases h with
  | notRunning | fault => rfl
  | console same => rw [same]

/-- Two machines, each on its console, do the same to what an instruction consists of: a relation
between them is kept by all of it but the routines of the traps. -/
structure Lockstep (E : Console.Error → Console.Error → Prop) (con : Console σ) (con' : Console τ)
    (Q : Machine × σ → Machine × τ → Prop) : Prop where
  regs : ∀ {s t}, Q s t → s.1.regs = t.1.regs
  state : ∀ {s t}, Q s t → s.1.state = t.1.state
  onRegs : ∀ {s t}, Q s t → ∀ f : Registers → Registers,
    Q ({ s.1 with regs := f s.1.regs }, s.2) ({ t.1 with regs := f t.1.regs }, t.2)
  store : ∀ {s t}, Q s t → ∀ a v : Word,
    Q ({ s.1 with mem := s.1.mem.set a v }, s.2) ({ t.1 with mem := t.1.mem.set a v }, t.2)
  enter : ∀ {s t}, Q s t → ∀ state : State, Q ({ s.1 with state }, s.2) ({ t.1 with state }, t.2)
  count : ∀ {s t}, Q s t →
    Q ({ s.1 with cycles := s.1.cycles + 1 }, s.2) ({ t.1 with cycles := t.1.cycles + 1 }, t.2)
  load : ∀ a, Parallel E Q (load con a) (load con' a)

namespace Lockstep
variable {Q : Machine × σ → Machine × τ → Prop} (h : Lockstep E con con' Q)
include h

section Parts
variable {ε ε' : Type} {F : ε → ε' → Prop}

theorem inRegs_parallel (f : Registers → α) :
    Parallel F Q (inRegs f : Action σ ε α) (inRegs f) := by
  intro s t states
  rw [inRegs, inRegs, h.regs states]
  exact .ok _ states

theorem onRegs_parallel (f : Registers → Registers) :
    Parallel F Q (Machine.onRegs f : Action σ ε Unit) (Machine.onRegs f) :=
  fun _ _ states => .ok () (h.onRegs states f)

theorem store_parallel (a v : Word) :
    Parallel F Q (Machine.store a v : Action σ ε Unit) (Machine.store a v) :=
  fun _ _ states => .ok () (h.store states a v)

theorem enter_parallel (state : State) :
    Parallel F Q (Machine.enter state : Action σ ε Unit) (Machine.enter state) :=
  fun _ _ states => .ok () (h.enter states state)

theorem count_parallel : Parallel F Q (Machine.count : Action σ ε Unit) Machine.count :=
  fun _ _ states => .ok () (h.count states)

end Parts

/-- The machines execute an instruction side by side if they do so with the routine it may call. -/
theorem execute {i : Instruction Reg}
    (served : ∀ v, i = .trap v → Parallel E Q (serve con v) (serve con' v)) :
    Parallel E Q (execute con i) (execute con' i) := by
  cases i with
  | add | and | not | lea | br | jmp =>
    simp only [Machine.execute]
    exact h.onRegs_parallel _
  | ld | ldr =>
    exact .bind (h.inRegs_parallel _) fun _ => .bind (h.load _) fun _ => h.onRegs_parallel _
  | ldi =>
    exact .bind (h.inRegs_parallel _) fun _ => .bind (h.load _) fun _ => .bind (h.load _) fun _ =>
      h.onRegs_parallel _
  | st | str =>
    exact .bind (h.inRegs_parallel _) fun _ => .bind (h.inRegs_parallel _) fun _ =>
      h.store_parallel _ _
  | sti =>
    exact .bind (h.inRegs_parallel _) fun _ => .bind (h.load _) fun _ =>
      .bind (h.inRegs_parallel _) fun _ => h.store_parallel _ _
  | jsr | jsrr => exact .bind (h.onRegs_parallel _) fun _ => h.onRegs_parallel _
  | trap v =>
    refine .bind (h.onRegs_parallel _) fun _ => .bind (served v rfl) fun o => ?_
    cases o with
    | resume => exact .pure ()
    | halt => exact h.enter_parallel _

theorem requireRunning : Parallel (Error.Matches E) Q
    (requireRunning : Action σ Error Unit) requireRunning := by
  intro s t states
  have same := h.state states
  by_cases running : t.1.state = .running
  · simp only [Machine.requireRunning, isRunning, same, running, beq_self_eq_true, if_true]
    exact .ok () states
  · simp only [Machine.requireRunning, isRunning, same, beq_iff_eq, running, if_false]
    exact .error (.notRunning _) states

theorem decodeOrFault (pc w : Word) : Parallel (Error.Matches E) Q
    (decodeOrFault pc w : Action σ Error (Instruction Reg)) (decodeOrFault pc w) := by
  unfold Machine.decodeOrFault
  split
  · exact .pure _
  · exact .bind (h.enter_parallel _) fun _ => .throw (.fault _ _ _)

/-- So they go through a whole step, if that holds of all routines. -/
theorem step (served : ∀ v, Parallel E Q (serve con v) (serve con' v)) :
    Parallel (Error.Matches E) Q (step con) (step con') :=
  .bind h.requireRunning fun _ => .bind (h.inRegs_parallel _) fun pc =>
    .bind ((h.load pc).adaptExcept fun _ _ => .console) fun w =>
    .bind (h.onRegs_parallel _) fun _ => .bind (h.decodeOrFault pc w) fun i =>
    .bind ((h.execute fun v _ => served v).adaptExcept fun _ _ => .console) fun _ =>
    .bind h.count_parallel fun _ => .pure i

end Lockstep

theorem load_parallel (h : con.Mirrors E R con') (a : Word) :
    Parallel E (Beside R) (load con a) (load con' a) := by
  rintro ⟨m, c⟩ ⟨_, d⟩ ⟨rfl, states⟩
  have loaded := Memory.read_parallel h a (m.mem, c) (m.mem, d) ⟨rfl, states⟩
  simp only [load]
  generalize Memory.read con a (m.mem, c) = r, Memory.read con' a (m.mem, d) = r' at loaded
  cases loaded with
  | ok v states' => exact .ok v ⟨by rw [states'.1], states'.2⟩
  | error errors states' => exact .error errors ⟨by rw [states'.1], states'.2⟩

theorem serve_parallel (h : con.Mirrors E R con') (v : TrapVector) :
    Parallel E (Beside R) (serve con v) (serve con' v) := by
  rintro ⟨m, c⟩ ⟨_, d⟩ ⟨rfl, states⟩
  have served := Trap.run_parallel h m.mem v (m.regs, c) (m.regs, d) ⟨rfl, states⟩
  simp only [serve]
  generalize Trap.run con m.mem v (m.regs, c) = r, Trap.run con' m.mem v (m.regs, d) = r' at served
  cases served with
  | ok o states' => exact .ok o ⟨by rw [states'.1], states'.2⟩
  | error errors states' => exact .error errors ⟨by rw [states'.1], states'.2⟩

/-- Whatever is done to the machine is done on both consoles. -/
theorem lockstep_beside (h : con.Mirrors E R con') : Lockstep E con con' (Beside R) where
  regs states := congrArg Machine.regs states.1
  state states := congrArg Machine.state states.1
  onRegs states f := ⟨by rw [states.1], states.2⟩
  store states a v := ⟨by rw [states.1], states.2⟩
  enter states state := ⟨by rw [states.1], states.2⟩
  count states := ⟨by rw [states.1], states.2⟩
  load := load_parallel h

/-- An instruction does the same on both consoles, or fails on both. -/
theorem step_parallel (h : con.Mirrors E R con') :
    Parallel (Error.Matches E) (Beside R) (step con) (step con') :=
  (lockstep_beside h).step (serve_parallel h)

/-- What no call leads out of, an instruction does not lead out of. -/
theorem step_stays {P : σ → Prop} (h : con.Keeps P) :
    Stays (fun s : Machine × σ => P s.2) (step con) := by
  intro s hs
  have stepped := step_parallel h.mirrors s s ⟨rfl, rfl, hs⟩
  generalize step con s = r at stepped
  cases stepped with
  | ok _ states | error _ states => exact states.2.2

theorem runTo_parallel (h : con.Mirrors E R con') (limit : UInt64) :
    Parallel (Error.Matches E) (Beside R) (runTo con limit) (runTo con' limit) := by
  intro s t states
  fun_induction runTo con limit s generalizing t with
  | case1 s go i s' hs ih =>
    obtain ⟨t', ht, states'⟩ := (step_parallel h).of_ok states hs
    rw [isRunning_iff, states.1] at go
    rw [runTo_of_step go.1 go.2 ht]
    exact ih t' states'
  | case2 s go e s' hs =>
    obtain ⟨e', t', ht, errors, states'⟩ := (step_parallel h).of_error states hs
    rw [isRunning_iff, states.1] at go
    rw [runTo_of_step_error go.1 go.2 ht]
    exact .error errors states'
  | case3 s stop =>
    rw [isRunning_iff, states.1] at stop
    rw [runTo_of_not stop]
    exact .ok () states

/-- A run without a limit returns on both consoles or on neither. -/
theorem runOut?_parallel (h : con.Mirrors E R con') {s : Machine × σ} {t : Machine × τ}
    (states : Beside R s t) :
    (runOut? con s).Rel (Matches (Error.Matches E) (Beside R)) (runOut? con' t) := by
  fun_induction runOut? con s generalizing t with
  | case1 s go i s' hs wrapped =>
    obtain ⟨t', ht, states'⟩ := (step_parallel h).of_ok states hs
    rw [isRunning_iff, states.1] at go
    rw [runOut?_of_step go ht, ← states'.1, if_pos wrapped]
    exact .none
  | case2 s go i s' hs room ih =>
    obtain ⟨t', ht, states'⟩ := (step_parallel h).of_ok states hs
    rw [isRunning_iff, states.1] at go
    rw [runOut?_of_step go ht, ← states'.1, if_neg room]
    exact ih states'
  | case3 s go e s' hs =>
    obtain ⟨e', t', ht, errors, states'⟩ := (step_parallel h).of_error states hs
    rw [isRunning_iff, states.1] at go
    rw [runOut?_of_step_error go ht]
    exact .some (.error errors states')
  | case4 s stop =>
    rw [isRunning_iff, states.1] at stop
    rw [runOut?_of_stopped con' stop]
    exact .some (.ok () states)

theorem counted_matches {s : Machine × σ} {t : Machine × τ} (states : Beside R s t)
    {r : EStateM.Result Error (Machine × σ) Unit} {r' : EStateM.Result Error (Machine × τ) Unit}
    (h : Matches (Error.Matches E) (Beside R) r r') :
    Matches (Error.Matches E) (Beside R) (counted s.1.cycles r) (counted t.1.cycles r') := by
  rw [states.1]
  cases h with
  | ok u states' =>
    simp only [counted, states'.1]
    exact .ok _ states'
  | error errors states' => exact .error errors states'

theorem runLimited_parallel (h : con.Mirrors E R con') (budget : UInt64) :
    Parallel (Error.Matches E) (Beside R) (runLimited con budget) (runLimited con' budget) := by
  intro s t states
  rw [runLimited_eq, runLimited_eq]
  have limits : limitFrom s.1.cycles budget = limitFrom t.1.cycles budget := by rw [states.1]
  rw [limits]
  exact counted_matches states (runTo_parallel h _ s t states)

theorem run?_parallel (h : con.Mirrors E R con') {s : Machine × σ} {t : Machine × τ}
    (states : Beside R s t) :
    (run? con s).Rel (Matches (Error.Matches E) (Beside R)) (run? con' t) := by
  rw [run?_eq, run?_eq]
  exact (runOut?_parallel h states).map fun _ _ => counted_matches states

section Watched
variable {κ κ' ν : Type}

/-- The same is found before an instruction. -/
inductive Checkpoint.Matches (E : Console.Error → Console.Error → Prop)
    (S : Cancellable κ → Cancellable κ' → Prop) : Checkpoint κ → Checkpoint κ' → Prop
  | stop {result result' : Except Error StopReason} {w : Cancellable κ} {w' : Cancellable κ'}
      (results : SameOutcome (Error.Matches E) result result') (states : S w w') :
      Matches E S (.stop result w) (.stop result' w')
  | go {w : Cancellable κ} {w' : Cancellable κ'} (states : S w w')
      (lowered : w.cancelled = false) : Matches E S (.go w) (.go w')

/-- Two watched runs have ended alike. -/
structure Ending.Matches (E : Console.Error → Console.Error → Prop)
    (S : Cancellable κ → Cancellable κ' → Prop) (ending : Ending κ ν) (ending' : Ending κ' ν) :
    Prop where
  machine : ending.machine = ending'.machine
  console : S ending.console ending'.console
  notes : ending.notes = ending'.notes
  result : SameOutcome (Error.Matches E) ending.result ending'.result

/-- Errors mean the same for a run if both or neither come from an interruption. -/
theorem endedBy_matches
    (interruptions : ∀ e e', E e e' → (e.kind = .interrupted ↔ e'.kind = .interrupted))
    {e e' : Error} (errors : Error.Matches E e e') (cancelled : Bool) :
    SameOutcome (Error.Matches E) (endedBy e cancelled) (endedBy e' cancelled) := by
  cases errors with
  | notRunning state => exact .error (.notRunning state)
  | fault pc word cause => exact .error (.fault pc word cause)
  | console causes =>
    simp only [endedBy, interruptions _ _ causes]
    split
    · exact .ok _
    · exact .error (.console causes)

section Related
variable {S : Cancellable κ → Cancellable κ' → Prop} {con : Console (Cancellable κ)}
  {con' : Console (Cancellable κ')} (h : con.Mirrors E S con')
  (flags : ∀ w w', S w w' → w.cancelled = w'.cancelled)
include h flags

theorem checkpoint_parallel (executed : UInt64) (limit : Option UInt64) (m : Machine)
    {w : Cancellable κ} {w' : Cancellable κ'} (states : S w w') :
    Checkpoint.Matches E S (checkpoint con executed limit m w)
      (checkpoint con' executed limit m w') := by
  have pumped : Matches E S
      ((if executed % pumpInterval = 0 then con.pump else pure ()) w)
      ((if executed % pumpInterval = 0 then con'.pump else pure ()) w') := by
    split
    · exact h.pump w w' states
    · exact .ok () states
  simp only [checkpoint]
  split
  · exact .stop (.ok _) states
  · generalize (if executed % pumpInterval = 0 then con.pump else pure ()) w = r,
      (if executed % pumpInterval = 0 then con'.pump else pure ()) w' = r' at pumped
    cases pumped with
    | error errors states' => exact .stop (.error (.console errors)) states'
    | ok _ states' =>
      simp only [← flags _ _ states']
      split
      next => exact .stop (.ok _) states'
      next lowered =>
        split
        · exact .stop (.ok _) states'
        · exact .go states' (Bool.eq_false_iff.2 lowered)

variable {watch : Watcher ν} (heeded : ∀ m notes w w', S w w' → w.cancelled = false →
  S { w with cancelled := (watch m notes).2 } { w' with cancelled := (watch m notes).2 })
include heeded

private theorem go_parallel {executed : UInt64} {limit : Option UInt64} {m : Machine} (notes : ν)
    {w w₁ : Cancellable κ} {w' : Cancellable κ'} (states : S w w')
    (go : checkpoint con executed limit m w = .go w₁) :
    ∃ w₁', checkpoint con' executed limit m w' = .go w₁' ∧
      Beside S (m, { w₁ with cancelled := (watch m notes).2 })
        (m, { w₁' with cancelled := (watch m notes).2 }) := by
  have found := checkpoint_parallel h flags executed limit m states
  rw [go] at found
  generalize checkpoint con' executed limit m w' = c at found
  cases found with
  | go states' lowered => exact ⟨_, rfl, rfl, heeded m notes _ _ states' lowered⟩

/-- A watched run returns on both consoles or on neither. The consoles need only be related as the
watcher leaves them. -/
theorem watchFrom?_related
    (interruptions : ∀ e e', E e e' → (e.kind = .interrupted ↔ e'.kind = .interrupted))
    (start : UInt64) (limit : Option UInt64) (m : Machine) {w : Cancellable κ}
    {w' : Cancellable κ'} (states : S w w') (notes : ν) :
    (watchFrom? con start limit watch m w notes).Rel (Ending.Matches E S)
      (watchFrom? con' start limit watch m w' notes) := by
  fun_induction watchFrom? con start limit watch m w notes generalizing w' with
  | case1 m w notes result w₁ stop =>
    have found := checkpoint_parallel h flags (m.cycles - start) limit m states
    rw [stop] at found
    generalize stop' : checkpoint con' (m.cycles - start) limit m w' = c at found
    cases found with
    | stop results states' =>
      rw [watchFrom?_of_stop stop']
      exact .some ⟨rfl, states', rfl, results.map _⟩
  | case2 m w notes w₁ go notes₁ cancels seen i m' w₂ done wrapped =>
    obtain ⟨w₁', go', states₁⟩ := go_parallel h flags heeded notes states go
    rw [show cancels = (watch m notes).2 by rw [seen]] at done
    obtain ⟨⟨_, w₂'⟩, done', rfl, -⟩ := (step_parallel h).of_ok states₁ done
    rw [watchFrom?_of_go_of_step go' done', if_pos wrapped]
    exact .none
  | case3 m w notes w₁ go notes₁ cancels seen i m' w₂ done room ih =>
    obtain ⟨w₁', go', states₁⟩ := go_parallel h flags heeded notes states go
    rw [show cancels = (watch m notes).2 by rw [seen]] at done
    obtain ⟨⟨_, w₂'⟩, done', rfl, states₂⟩ := (step_parallel h).of_ok states₁ done
    rw [watchFrom?_of_go_of_step go' done', if_neg room, seen]
    exact ih states₂
  | case4 m w notes w₁ go notes₁ cancels seen e m' w₂ failed =>
    obtain ⟨w₁', go', states₁⟩ := go_parallel h flags heeded notes states go
    rw [show cancels = (watch m notes).2 by rw [seen]] at failed
    obtain ⟨e', ⟨_, w₂'⟩, failed', errors, rfl, states₂⟩ :=
      (step_parallel h).of_error states₁ failed
    rw [watchFrom?_of_go_of_step_error go' failed', seen, ← flags _ _ states₂]
    exact .some ⟨rfl, states₂, rfl, (endedBy_matches interruptions errors _).map _⟩

end Related

/-- Consoles that mirror each other beside any flag end a watched run alike. -/
theorem runWatched?_parallel {R : κ → κ' → Prop} {con : Console (Cancellable κ)}
    {con' : Console (Cancellable κ')} (h : con.Mirrors E (Cancellable.SameFlag R) con')
    (kinds : ∀ e e', E e e' → e.kind = e'.kind) (budget : Option UInt64) (watch : Watcher ν)
    {s : Machine × Cancellable κ} {t : Machine × Cancellable κ'}
    (states : Beside (Cancellable.SameFlag R) s t) (notes : ν) :
    (runWatched? con budget watch notes s).Rel (Ending.Matches E (Cancellable.SameFlag R))
      (runWatched? con' budget watch notes t) := by
  obtain ⟨m, w⟩ := s
  obtain ⟨_, w'⟩ := t
  obtain ⟨rfl, same⟩ := states
  have interruptions (e e' : Console.Error) (errors : E e e') :
      e.kind = .interrupted ↔ e'.kind = .interrupted := by rw [kinds e e' errors]
  exact watchFrom?_related h (fun _ _ => And.left) (fun _ _ _ _ alike _ => ⟨rfl, alike.2⟩)
    interruptions m.cycles (budget.map (limitFrom m.cycles)) m same notes

/-- If nobody watches, the consoles need only be related while the flag is down. -/
theorem runUntil?_parallel {S : Cancellable κ → Cancellable κ' → Prop}
    {con : Console (Cancellable κ)} {con' : Console (Cancellable κ')} (h : con.Mirrors E S con')
    (flags : ∀ w w', S w w' → w.cancelled = w'.cancelled)
    (interruptions : ∀ e e', E e e' → (e.kind = .interrupted ↔ e'.kind = .interrupted))
    (budget : Option UInt64) {s : Machine × Cancellable κ} {t : Machine × Cancellable κ'}
    (states : Beside S s t) :
    (runUntil? con budget s).Rel (Ending.Matches E S) (runUntil? con' budget t) := by
  obtain ⟨m, w⟩ := s
  obtain ⟨_, w'⟩ := t
  obtain ⟨rfl, alike⟩ := states
  refine watchFrom?_related h flags ?_ interruptions m.cycles (budget.map (limitFrom m.cycles)) m
    alike ()
  rintro - - ⟨c, flag⟩ ⟨d, flag'⟩ alike' rfl
  obtain rfl : false = flag' := flags _ _ alike'
  exact alike'

end Watched

end Machine

end LittleComputer
