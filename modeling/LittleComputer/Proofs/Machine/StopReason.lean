import LittleComputer.Console.Buffer
import LittleComputer.Proofs.Machine.FailedStep
import LittleComputer.Proofs.Machine.LifeCycle
import LittleComputer.Proofs.Machine.Loops
import LittleComputer.Proofs.Machine.WatchedRun

/-! What the reason for a run's return says of the machine. A run that executes anything tells by
its reason how the machine was left. One that finds the machine stopped returns at once with the
reason for a halt, be the machine halted or faulted. -/
namespace LittleComputer.Machine
variable {κ τ : Type}

/-- The state that a reason speaks of. -/
def StopReason.state : StopReason → State
  | .halted => .halted
  | .cycleLimit | .cancelled => .running

/-- A completed instruction that leaves the machine stopped is the one that halts. -/
theorem halts_of_step {σ : Type} {con : Console σ} {m m' : Machine} {c c' : σ}
    {i : Instruction Reg} (done : step con (m, c) = .ok i (m', c')) (stopped : m'.state ≠ .running) :
    i = .trap .halt ∧ m'.state = .halted := by
  obtain ⟨running, -⟩ := step_eq_ok done
  have lawful := lawful_of_ok done
  cases hs : m'.state with
  | running => exact absurd hs stopped
  | halted =>
    cases (lawful.halts running).1 hs
    exact ⟨rfl, rfl⟩
  | faulted =>
    obtain ⟨pc, word, cause, hr⟩ := (lawful.faults running).1 hs
    cases hr

section
variable {con : Console (Cancellable κ)} {budget : Option UInt64} {watch : Watcher τ}
  {start : UInt64} {p₀ p : Pause κ τ} {n : Nat} {ending : Ending κ τ} {summary : Summary}

/-- The last instruction of a run is the one that halts, and the run was left at once. -/
def HaltsAt (con : Console (Cancellable κ)) (watch : Watcher τ) (p₀ : Pause κ τ)
    (ending : Ending κ τ) : Prop :=
  ∃ n p w, Reached con watch p₀ n p ∧ pumped con n p.console = .ok () w ∧
    step con (p.machine, p.watched watch w) =
      .ok (.trap .halt) (ending.machine, ending.console)

/-- A stopped machine in the course of a run was found stopped, or has just halted. -/
private theorem stopped_of_reached (reached : Reached con watch p₀ n p)
    (stopped : p.machine.state ≠ .running) :
    p = p₀ ∨ p.machine.state = .halted ∧
      HaltsAt con watch p₀ ⟨p.machine, p.console, p.notes, .ok ⟨UInt64.ofNat n, .halted⟩⟩ := by
  cases reached with
  | start => exact .inl rfl
  | step before pump done =>
    obtain ⟨rfl, halted⟩ := halts_of_step done stopped
    exact .inr ⟨halted, _, _, _, before, pump, done⟩

/-- With any other reason for an end than a stopped machine, the machine still runs. -/
private theorem state_of_exit (h : Exit con budget watch start n p ending)
    (ok : ending.result = .ok summary) :
    p.machine.state ≠ .running ∧
        ending = ⟨p.machine, p.console, p.notes, .ok ⟨UInt64.ofNat n, .halted⟩⟩ ∨
      summary.reason ≠ .halted ∧ ending.machine.state = .running ∧
        summary.reason.state = .running := by
  cases h with
  | halted stopped => exact .inl ⟨stopped, rfl⟩
  | cancelled running | cycleLimit running =>
    cases ok
    exact .inr ⟨nofun, running, rfl⟩
  | interrupted clear failed =>
    cases ok
    exact .inr ⟨nofun, (step_footprint failed).state, rfl⟩
  | pumpFailed | failed => cases ok

end

/-- The reason with which a run returns speaks of the state the machine is left in, unless the
machine had faulted before. If the machine was running, the reason for a halt means that it has
executed the instruction that halts. A machine that had stopped is left as it is, with the reason
for a halt. -/
theorem reason_truthful (con : Console (Cancellable κ)) (budget : Option UInt64)
    (watch : Watcher τ) (m : Machine) (w : Cancellable κ) (notes : τ) {ending : Ending κ τ}
    {summary : Summary} (returned : runWatched? con budget watch notes (m, w) = some ending)
    (ok : ending.result = .ok summary) :
    (m.state ≠ .faulted → ending.machine.state = summary.reason.state) ∧
      (m.state = .running → summary.reason = .halted → HaltsAt con watch ⟨m, w, notes⟩ ending) ∧
      (m.state ≠ .running → ending = ⟨m, w, notes, .ok ⟨0, .halted⟩⟩) := by
  by_cases running : m.state = .running
  · obtain ⟨n, p, reached, exit, -⟩ := exists_exit_of_runWatched? returned
    rcases state_of_exit exit ok with ⟨stopped, rfl⟩ | ⟨other, still, speaks⟩
    · cases ok
      rcases stopped_of_reached reached stopped with rfl | ⟨halted, halts⟩
      · exact absurd running stopped
      · exact ⟨fun _ => halted, fun _ _ => halts, absurd running⟩
    · exact ⟨fun _ => still.trans speaks.symm, fun _ halted => absurd halted other, absurd running⟩
  · have refused := (Call.runWatched con budget watch notes w).refused_of_stopped running
    cases returned.symm.trans refused
    cases ok
    refine ⟨fun unfaulted => ?_, fun running' => absurd running' running, fun _ => rfl⟩
    cases hs : m.state with
    | running => exact absurd hs running
    | halted => rfl
    | faulted => exact absurd hs unfaulted

/-- A program that does nothing but halt. -/
theorem reason_truthful_of_halt :
    let con := Console.Buffer.console.beside
    let m : Machine := { mem := Memory.set {} startAddress 0xF025 }
    let w : Cancellable Console.Buffer := ⟨{}, false⟩
    ∃ ending, runUntil? con none (m, w) = some ending ∧ ending.result = .ok ⟨1, .halted⟩ ∧
      ending.machine.state = .halted ∧ HaltsAt con (fun _ () => ((), false)) ⟨m, w, ()⟩ ending := by
  intro con m w
  have hm : Memory.read con m.regs.pc (m.mem, w) = .ok 0xF025 (m.mem, w) :=
    Memory.read_set (a := startAddress) (by decide) con {} 0xF025 w
  have hd : Instruction.decode 0xF025 = .ok (.trap .halt) := by cbv
  obtain ⟨m', w', hs, stopped, count⟩ : ∃ m' w', step con (m, w) = .ok (.trap .halt) (m', w') ∧
      m'.state = .halted ∧ m'.cycles = 1 := ⟨_, _, step_of_execute rfl hm hd rfl, rfl, rfl⟩
  have go : checkpoint con (m.cycles - 0) none m w = .go w :=
    (checkpoint_eq_go rfl).2 ⟨rfl, rfl, by decide, rfl⟩
  have stop : checkpoint con (m'.cycles - 0) none m' w' = .stop (.ok .halted) w' :=
    (checkpoint_eq_stop rfl).2 ⟨rfl, .inl ⟨by simp [stopped], rfl⟩⟩
  have returned : runUntil? con none (m, w) =
      some ⟨m', w', (), .ok ⟨m'.cycles - 0, .halted⟩⟩ := by
    refine (watchFrom?_of_go_of_step go hs).trans ?_
    rw [if_neg (by simp [count])]
    exact watchFrom?_of_stop stop
  obtain ⟨speaks, halts, -⟩ := reason_truthful con none _ m w () returned rfl
  have unfaulted : State.running ≠ .faulted := by decide
  exact ⟨_, returned, by simp [count], speaks unfaulted, halts rfl rfl⟩

/-- A machine has faulted in a step, and a run of it says that it has halted. -/
theorem halted_reason_of_faulted :
    let m : Machine := { mem := Memory.set {} startAddress 0xD000 }
    ∃ m' ending, step Console.Buffer.console (m, {}) =
        .error (.fault startAddress 0xD000 (.reserved .res 0xD000)) (m', {}) ∧
      runUntil? Console.Buffer.console.beside none (m', ⟨{}, false⟩) = some ending ∧
      ending.result = .ok ⟨0, .halted⟩ ∧ ending.machine.state = .faulted := by
  intro m
  have hm : Memory.read Console.Buffer.console m.regs.pc (m.mem, {}) = .ok 0xD000 (m.mem, {}) :=
    Memory.read_set (a := startAddress) (by decide) _ {} 0xD000 _
  have hd : Instruction.decode 0xD000 = .error (.reserved .res 0xD000) := by cbv
  have stopped : ({ m.fetched m.mem with state := .faulted } : Machine).state ≠ .running := by simp
  have refused := (Call.runUntil Console.Buffer.console.beside none ⟨{}, false⟩).refused_of_stopped
    stopped
  exact ⟨_, _, step_of_decode_error rfl hm hd, refused, rfl, rfl⟩

end LittleComputer.Machine
