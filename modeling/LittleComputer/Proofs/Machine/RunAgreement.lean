import LittleComputer.Console.Buffer
import LittleComputer.Proofs.Machine.Budget
import LittleComputer.Proofs.Machine.CalmRun
import LittleComputer.Proofs.Machine.Stepping
import LittleComputer.Proofs.Registers

/-! Three ways to run. On a console that keeps quiet a run that can be cancelled is a limited run
if it has a budget and an unlimited one if it has none; and an unlimited run is a limited one
whose budget is large enough. -/
namespace LittleComputer.Machine
variable {σ κ : Type}

/-- How a run that may be cancelled ends if it has done what an uncancelled one has. -/
def Ending.ofRun : EStateM.Result Error (Machine × Cancellable κ) UInt64 → Ending κ Unit
  | .ok n (m, w) => ⟨m, w, (), .ok ⟨n, if m.isRunning then .cycleLimit else .halted⟩⟩
  | .error e (m, w) => ⟨m, w, (), .error e⟩

section Calm
variable {con : Console (Cancellable κ)} {P : Cancellable κ → Prop} (calm : con.Calm P)
  {s : Machine × Cancellable κ} (hs : P s.2) (start : UInt64)

private theorem ofRun_of_stopped (n : UInt64) (h : s.1.state ≠ .running) :
    Ending.ofRun (.ok n s) = ⟨s.1, s.2, (), .ok ⟨n, .halted⟩⟩ := by
  simp [Ending.ofRun, h]

private theorem ofRun_of_running (n : UInt64) (h : s.1.state = .running) :
    Ending.ofRun (.ok n s) = ⟨s.1, s.2, (), .ok ⟨n, .cycleLimit⟩⟩ := by
  simp [Ending.ofRun, h]

include calm hs

private theorem watchFrom?_eq_runTo (limit : UInt64) :
    watchFrom? con start (some limit) (fun _ () => ((), false)) s.1 s.2 () =
      some (.ofRun (counted start (runTo con limit s))) := by
  fun_induction runTo con limit s with
  | case1 s go i s' done ih =>
    have running := (isRunning_iff _).1 go.1
    have within : ¬ (some limit).any (· ≤ s.1.cycles) = true := by simpa using go.2
    have room := toNat_add_one_of_lt go.2
    rw [← cycles_of_step done] at room
    have unwrapped : s'.1.cycles ≠ 0 := fun h => by simp [h] at room
    have kept := step_stays calm.keeps s hs
    rw [done] at kept
    rw [watchFrom?_of_calm_step calm hs start running within (fun _ _ => rfl) done,
      if_neg unwrapped]
    exact ih kept
  | case2 s go e s' failed =>
    have running := (isRunning_iff _).1 go.1
    have within : ¬ (some limit).any (· ≤ s.1.cycles) = true := by simpa using go.2
    exact watchFrom?_of_calm_error calm hs start running within (fun _ _ => rfl) failed
  | case3 s stop =>
    by_cases running : s.1.state = .running
    · have reached : ¬ s.1.cycles < limit := fun below => stop ⟨(isRunning_iff _).2 running, below⟩
      rw [watchFrom?_of_calm_limit calm hs start running (by simpa using reached), counted,
        ofRun_of_running _ running]
    · rw [watchFrom?_of_calm_stopped calm hs start running, counted, ofRun_of_stopped _ running]

private theorem watchFrom?_eq_runOut? :
    watchFrom? con start none (fun _ () => ((), false)) s.1 s.2 () =
      (runOut? con s).map fun r => .ofRun (counted start r) := by
  fun_induction runOut? con s with
  | case1 s go i s' done wrapped =>
    rw [isRunning_iff] at go
    rw [watchFrom?_of_calm_step calm hs start go (by simp) (fun _ _ => rfl) done, if_pos wrapped]
    rfl
  | case2 s go i s' done room ih =>
    rw [isRunning_iff] at go
    have kept := step_stays calm.keeps s hs
    rw [done] at kept
    rw [watchFrom?_of_calm_step calm hs start go (by simp) (fun _ _ => rfl) done, if_neg room]
    exact ih kept
  | case3 s go e s' failed =>
    rw [isRunning_iff] at go
    exact watchFrom?_of_calm_error calm hs start go (by simp) (fun _ _ => rfl) failed
  | case4 s stop =>
    rw [isRunning_iff] at stop
    rw [watchFrom?_of_calm_stopped calm hs start stop, Option.map_some, counted,
      ofRun_of_stopped _ stop]

end Calm

section Enough
variable {con : Console σ} {s s' : Machine × σ}

/-- A run is over for good: the machine has stopped or an instruction has failed. -/
def Over {α : Type} : EStateM.Result Error (Machine × σ) α → Prop
  | .ok _ s => s.1.state ≠ .running
  | .error _ _ => True

@[simp]
theorem over_counted (start : UInt64) (r : EStateM.Result Error (Machine × σ) Unit) :
    Over (counted start r) ↔ Over r := by
  cases r <;> exact Iff.rfl

/-- However long the machine runs, it attempts no instruction at the largest count. -/
def Roomy (con : Console σ) (s : Machine × σ) : Prop :=
  ∀ evs m returned, (Loop.whileRunning con).Trace s.1 s.2 () evs m returned →
    ∀ e ∈ evs, e.before.cycles.toNat < UInt64.size - 1

theorem Roomy.of_step {i : Instruction Reg} (roomy : Roomy con s) (running : s.1.state = .running)
    (h : step con s = .ok i s') : Roomy con s' := by
  intro evs m returned trace e he
  have next : (Loop.whileRunning con).next? s.1 s.2 () = some (s.2, ()) :=
    if_pos ((isRunning_iff _).2 running)
  exact roomy _ _ _ (.done next h trace) e (List.mem_cons_of_mem _ he)

theorem Roomy.toNat_lt (roomy : Roomy con s) (running : s.1.state = .running) :
    s.1.cycles.toNat < UInt64.size - 1 := by
  have next : (Loop.whileRunning con).next? s.1 s.2 () = some (s.2, ()) :=
    if_pos ((isRunning_iff _).2 running)
  cases h : step con s with
  | ok i s' => exact roomy _ _ _ (.done next h .here) _ List.mem_cons_self
  | error e s' => exact roomy _ _ _ (.failed next h) _ List.mem_cons_self

/-- There is room for all instructions if there is for the next and for those after it. -/
private theorem roomy_of (now : s.1.state = .running → s.1.cycles.toNat < UInt64.size - 1)
    (later : ∀ i s', step con s = .ok i s' → Roomy con s') : Roomy con s := by
  have next {c₁ : σ} {t₁ : Unit}
      (h : (Loop.whileRunning con).next? s.1 s.2 () = some (c₁, t₁)) :
      s.1.state = .running ∧ c₁ = s.2 := by
    simp only [Loop.whileRunning, Option.ite_none_right_eq_some, isRunning_iff] at h
    cases h.2
    exact ⟨h.1, rfl⟩
  intro evs m returned trace e he
  cases trace with
  | here | left => simp at he
  | failed h hs =>
    rw [List.mem_singleton.1 he]
    exact now (next h).1
  | @done _ _ _ _ c₁ c₂ _ t₁ _ _ _ h hs rest =>
    obtain ⟨running, rfl⟩ := next h
    rcases List.mem_cons.1 he with rfl | he
    · exact now running
    · exact later _ _ hs _ _ _ rest e he

/-- A limited run that is over has done all that there is to do. -/
private theorem runOut?_of_over {limit : UInt64} (settled : Over (runTo con limit s)) :
    runOut? con s = some (runTo con limit s) ∧ Roomy con s := by
  have top := limit.toNat_lt
  have size : UInt64.size = 2 ^ 64 := rfl
  fun_induction runTo con limit s with
  | case1 s go i s' done ih =>
    have below := UInt64.lt_iff_toNat_lt.1 go.2
    have room := toNat_add_one_of_lt go.2
    rw [← cycles_of_step done] at room
    have unwrapped : s'.1.cycles ≠ 0 := fun h => by simp [h] at room
    obtain ⟨ran, later⟩ := ih settled
    constructor
    · rw [runOut?_of_step ((isRunning_iff _).1 go.1) done, if_neg unwrapped, ran]
    · refine roomy_of (fun _ => by omega) fun j s₁ h => ?_
      cases done.symm.trans h
      exact later
  | case2 s go e s' failed =>
    have below := UInt64.lt_iff_toNat_lt.1 go.2
    constructor
    · exact runOut?_of_step_error ((isRunning_iff _).1 go.1) failed
    · exact roomy_of (fun _ => by omega) fun j s₁ h => by cases failed.symm.trans h
  | case3 s stop =>
    refine ⟨runOut?_of_stopped con settled, roomy_of (fun running => absurd running settled) ?_⟩
    intro j s₁ h
    cases (step_of_stopped settled).symm.trans h

private theorem runTo_of_runOut? (roomy : Roomy con s)
    {r : EStateM.Result Error (Machine × σ) Unit} (h : runOut? con s = some r) :
    runTo con (UInt64.ofNat (UInt64.size - 1)) s = r ∧ Over r := by
  fun_induction runOut? con s with
  | case1 => cases h
  | case2 s go i s' done room ih =>
    rw [isRunning_iff] at go
    have below : s.1.cycles < UInt64.ofNat (UInt64.size - 1) :=
      UInt64.lt_iff_toNat_lt.2 (roomy.toNat_lt go)
    rw [runTo_of_step go below done]
    exact ih (roomy.of_step go done) h
  | case3 s go e s' failed =>
    cases h
    rw [isRunning_iff] at go
    have below : s.1.cycles < UInt64.ofNat (UInt64.size - 1) :=
      UInt64.lt_iff_toNat_lt.2 (roomy.toNat_lt go)
    exact ⟨runTo_of_step_error go below failed, trivial⟩
  | case4 s stop =>
    cases h
    rw [isRunning_iff] at stop
    exact ⟨runTo_of_stopped con _ stop, stop⟩

/-- A run that is over is not changed by a higher limit. -/
private theorem runTo_of_over {limit limit' : UInt64} (h : limit ≤ limit')
    (settled : Over (runTo con limit s)) : runTo con limit' s = runTo con limit s := by
  cases first : runTo con limit s with
  | ok u s' =>
    rw [first] at settled
    rw [runTo_of_runTo h first, runTo_of_stopped con _ settled]
  | error e s' => exact runTo_of_runTo_error h first

end Enough

/-- The three ways to run agree. With a budget a run that nobody cancels does what a limited run
does, without one what an unlimited run does; and an unlimited run that is never out of counts
returns what limited runs return from some budget on. -/
theorem runs_agree {con : Console (Cancellable κ)} {P : Cancellable κ → Prop} (calm : con.Calm P)
    (m : Machine) {w : Cancellable κ} (hw : P w) :
    (∀ budget, runUntil? con (some budget) (m, w) =
        some (.ofRun (runLimited con budget (m, w)))) ∧
      runUntil? con none (m, w) = (run? con (m, w)).map .ofRun ∧
      (∀ r, (run? con (m, w) = some r ∧ Roomy con (m, w)) ↔
        ∃ budget, runLimited con budget (m, w) = r ∧ Over r) ∧
      ∀ budget budget', Over (runLimited con budget (m, w)) → budget ≤ budget' →
        runLimited con budget' (m, w) = runLimited con budget (m, w) := by
  refine ⟨fun budget => ?_, ?_, fun r => ⟨?_, ?_⟩, fun budget budget' settled le => ?_⟩
  · rw [runLimited_eq]
    exact watchFrom?_eq_runTo calm hw m.cycles _
  · rw [run?_eq, Option.map_map]
    exact watchFrom?_eq_runOut? calm hw m.cycles
  · rintro ⟨ran, roomy⟩
    rw [run?_eq, Option.map_eq_some_iff] at ran
    obtain ⟨r₀, ran, rfl⟩ := ran
    obtain ⟨limited, settled⟩ := runTo_of_runOut? roomy ran
    refine ⟨UInt64.ofNat (UInt64.size - 1), ?_, (over_counted _ _).2 settled⟩
    rw [runLimited_eq, limitFrom_largest, limited]
  · rintro ⟨budget, rfl, settled⟩
    rw [runLimited_eq, over_counted] at settled
    obtain ⟨ran, roomy⟩ := runOut?_of_over settled
    rw [run?_eq, ran, runLimited_eq]
    exact ⟨rfl, roomy⟩
  · rw [runLimited_eq, over_counted] at settled
    rw [runLimited_eq, runLimited_eq, runTo_of_over (limitFrom_mono le) settled]

/-- A machine that asks for a key that does not come fails in the same way in every run. -/
theorem runs_agree_of_missing_key :
    let con := Console.Buffer.console.beside
    let w : Cancellable Console.Buffer := ⟨{}, false⟩
    let m : Machine := { mem := Memory.set {} startAddress 0xF020 }
    let missing : Error := .console ⟨.unexpectedEof, "no more scripted input"⟩
    con.Calm (·.cancelled = false) ∧ ∃ m', m'.regs.get .r7 = 0x3001 ∧
      runUntil? con none (m, w) = some ⟨m', w, (), .error missing⟩ ∧
      runUntil? con (some 7) (m, w) = some ⟨m', w, (), .error missing⟩ := by
  intro con w m missing
  have calm : con.Calm (·.cancelled = false) := Console.beside_calm fun _ => rfl
  have hm : Memory.read con m.regs.pc (m.mem, w) = .ok 0xF020 (m.mem, w) := by
    change Memory.read con startAddress (m.mem, w) = _
    rw [Memory.read_of_ne (by decide), Memory.peek_set, if_pos rfl]
  have hd : Instruction.decode 0xF020 = .ok (.trap .getc) := by
    rw [Instruction.decode, show Opcode.ofWord 0xF020 = .trap from rfl]
    rfl
  have hr (mem : Memory) (rs : Registers) :
      Trap.run con mem .getc (rs, w) =
        .error ⟨.unexpectedEof, "no more scripted input"⟩ (rs, w) := rfl
  obtain ⟨m', link, failed⟩ :
      ∃ m', m'.regs.get .r7 = 0x3001 ∧ step con (m, w) = .error missing (m', w) :=
    ⟨_, Registers.get_set_self _ _ _,
      step_of_execute_error rfl hm hd (execute_trap_eq_error.2 ⟨_, hr _ _, rfl⟩)⟩
  obtain ⟨limited, unlimited, enough, -⟩ := runs_agree calm m (w := w) rfl
  have ran : runLimited con 7 (m, w) = .error missing (m', w) := by
    rw [runLimited_eq, runTo_of_step_error rfl (by decide) failed]
    rfl
  refine ⟨calm, m', link, ?_, ?_⟩
  · rw [unlimited, ((enough _).2 ⟨7, ran, trivial⟩).1]
    rfl
  · rw [limited, ran]
    rfl

end LittleComputer.Machine
