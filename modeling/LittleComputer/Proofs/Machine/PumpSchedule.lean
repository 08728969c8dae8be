import LittleComputer.Proofs.Machine.ConsoleCalls
import LittleComputer.Proofs.Machine.WatchedRun

/-! When a watched run pumps its console. It does so first thing in every turn whose number is a
multiple of 1024, and never else, so the number of its instructions tells how often it has. -/
namespace LittleComputer.Machine
open Cancellable (SameConsole)
open Console (Entry Journaled)
variable {κ τ : Type}

/-- The number of pumps among calls. -/
def pumps (calls : List Entry) : Nat := calls.countP (·.call = .pump)

theorem pumps_append (calls calls' : List Entry) :
    pumps (calls ++ calls') = pumps calls + pumps calls' := List.countP_append

/-- The calls before and after a turn of a run. In the turn the pump comes first if it is due, and
nothing else is a pump. -/
def Turn (due : Prop) [Decidable due] (before after : List Entry) : Prop :=
  ∃ failure others, after = before ++ ((if due then [⟨.pump, failure⟩] else []) ++ others) ∧
    ∀ e ∈ others, e.call ≠ .pump

theorem Turn.pumps_eq {due : Prop} [Decidable due] {before after : List Entry}
    (h : Turn due before after) : pumps after = pumps before + if due then 1 else 0 := by
  obtain ⟨failure, others, rfl, unpumped⟩ := h
  have rest : pumps others = 0 := by simpa [pumps, List.countP_eq_zero] using unpumped
  rw [pumps_append, pumps_append, rest]
  split <;> rfl

theorem Turn.congr {due due' : Prop} [Decidable due] [Decidable due'] {before after : List Entry}
    (h : Turn due before after) (same : due ↔ due') : Turn due' before after := by
  obtain ⟨failure, others, rfl, unpumped⟩ := h
  exact ⟨failure, others, by rw [if_congr same rfl rfl], unpumped⟩

/-- A run has ended because the machine had stopped. -/
def Ending.isHalted (ending : Ending κ τ) : Bool :=
  match ending.result with
  | .ok ⟨_, .halted⟩ => true
  | .ok ⟨_, .cycleLimit⟩ | .ok ⟨_, .cancelled⟩ | .error _ => false

/-- The same end beside a journal with these calls in it. -/
def Ending.noted (ending : Ending κ τ) (calls : List Entry) : Ending (Journaled κ) τ :=
  ⟨ending.machine, ending.console.noted calls, ending.notes, ending.result⟩

/-- The pumps of a run that started at `p₀` with nothing written down, and has ended after `n`
instructions. -/
structure Scheduled (con : Console (Cancellable (Journaled κ))) (watch : Watcher τ)
    (p₀ : Pause (Journaled κ) τ) (n : Nat) (ending : Ending (Journaled κ) τ) : Prop where
  turns : ∀ k < n, ∃ p p', Reached con watch p₀ k p ∧ Reached con watch p₀ (k + 1) p' ∧
    p.machine.state = .running ∧ Turn (k % 1024 = 0) p.console.calls p'.console.calls
  last : ∃ p, Reached con watch p₀ n p ∧ (p.machine.state = .running ↔ ending.isHalted = false) ∧
    Turn (p.machine.state = .running ∧ n % 1024 = 0) p.console.calls ending.console.calls
  total : pumps ending.console.calls = if ending.isHalted then (n + 1023) / 1024 else n / 1024 + 1

section
variable {con : Console (Cancellable κ)} {budget : Option UInt64} {watch : Watcher τ}
  {start : UInt64} {n : Nat} {p p₀ : Pause (Journaled κ) τ} {v v' : Cancellable (Journaled κ)}
  {ending : Ending (Journaled κ) τ}

private theorem pumped_calls (con : Console (Cancellable κ)) (n : Nat)
    (v : Cancellable (Journaled κ)) : (stateLeft (pumped con.journaled n v)).calls =
      v.calls ++ if n % 1024 = 0 then [⟨.pump, failure? (pumped con.journaled n v)⟩] else [] := by
  rw [pumped]
  split
  · exact Console.calls_noting .pump con.pump v
  · exact (List.append_nil _).symm

/-- A turn that comes to its instruction has no other pump than the one before it. -/
private theorem turn_of_step (pump : pumped con.journaled n p.console = .ok () v)
    {r : EStateM.Result Error (Machine × Cancellable (Journaled κ)) (Instruction Reg)}
    (h : step con.journaled (p.machine, p.watched watch v) = r) :
    Turn (n % 1024 = 0) p.console.calls (stateLeft r).2.calls := by
  subst h
  have due := pumped_calls con n p.console
  obtain ⟨new, journaled, -, oneKey⟩ := step_calls con p.machine (p.watched watch v)
  rw [pump] at due
  refine ⟨none, new, ?_, ?_⟩
  · calc _ = v.calls ++ new := journaled
      _ = _ := by rw [← List.append_assoc]; exact congrArg (· ++ new) due
  · rintro e he rfl'
    exact oneKey.unpumped (List.mem_map.2 ⟨e, he, rfl'⟩)

/-- A turn that ends the run before its instruction makes no call but the pump. -/
private theorem turn_of_pump {r : EStateM.Result Console.Error (Cancellable (Journaled κ)) Unit}
    (h : pumped con.journaled n v = r) : Turn (n % 1024 = 0) v.calls (stateLeft r).calls := by
  subst h
  exact ⟨_, [], by rw [List.append_nil, pumped_calls], List.forall_mem_nil _⟩

theorem Reached.turns (h : Reached con.journaled watch p₀ n p) : ∀ k < n, ∃ q q',
    Reached con.journaled watch p₀ k q ∧ Reached con.journaled watch p₀ (k + 1) q' ∧
      q.machine.state = .running ∧ Turn (k % 1024 = 0) q.console.calls q'.console.calls := by
  induction h with
  | start => exact nofun
  | @step n p v v' i m' before pump done ih =>
    intro k hk
    rcases Nat.lt_succ_iff_lt_or_eq.1 hk with hlt | rfl
    · exact ih k hlt
    · exact ⟨p, _, before, before.step pump done, (step_eq_ok done).1, turn_of_step pump done⟩

/-- Of the first `n` turns those have pumped whose numbers are multiples of 1024. -/
theorem Reached.pumps_eq (h : Reached con.journaled watch p₀ n p) :
    pumps p.console.calls = pumps p₀.console.calls + (n + 1023) / 1024 := by
  induction h with
  | start => rfl
  | @step n p v v' i m' before pump done ih =>
    have turn := (turn_of_step pump done).pumps_eq
    rw [ih] at turn
    rw [stateLeft] at turn
    rw [turn]
    split <;> omega

/-- The last turn pumps like the others if the machine is still running, and the run is halted if it
is not. -/
private theorem turn_of_exit (h : Exit con.journaled budget watch start n p ending) :
    (p.machine.state = .running ↔ ending.isHalted = false) ∧
      Turn (p.machine.state = .running ∧ n % 1024 = 0) p.console.calls ending.console.calls := by
  have last {after : List Entry} (running : p.machine.state = .running)
      (turn : Turn (n % 1024 = 0) p.console.calls after) :
      (p.machine.state = .running ↔ false = false) ∧
        Turn (p.machine.state = .running ∧ n % 1024 = 0) p.console.calls after :=
    ⟨iff_of_true running rfl, turn.congr (by simp [running])⟩
  cases h with
  | halted stopped =>
    refine ⟨iff_of_false stopped nofun, none, [], ?_, List.forall_mem_nil _⟩
    rw [if_neg fun due => stopped due.1, List.append_nil, List.append_nil]
  | pumpFailed running due failed =>
    exact last running (turn_of_pump ((pumped_of_due due).trans failed))
  | cancelled running pump raised => exact last running (turn_of_pump pump)
  | cycleLimit running pump lowered usedUp => exact last running (turn_of_pump pump)
  | interrupted clear failed kind raised =>
    exact last clear.running (turn_of_step clear.pump failed)
  | failed clear failed notInterrupted => exact last clear.running (turn_of_step clear.pump failed)

end

theorem Ending.Matches.eq_noted {ending : Ending κ τ} {ending' : Ending (Journaled κ) τ}
    (h : ending.Matches Eq SameConsole ending') :
    ending' = ending.noted ending'.console.calls := by
  obtain ⟨m, w, notes, result⟩ := ending
  obtain ⟨_, v, _, result'⟩ := ending'
  obtain ⟨rfl, same, rfl, results⟩ := h
  have results' : result' = result := by
    cases results with
    | ok => rfl
    | error errors => rw [errors.eq]
  have same' : v = w.noted v.calls := Cancellable.SameConsole.eq_noted same
  rw [Ending.noted, ← same', results']

/-- Writing its calls down does not change how a run ends. -/
theorem runWatched?_journaled (con : Console (Cancellable κ)) (budget : Option UInt64)
    (watch : Watcher τ) (m : Machine) (w : Cancellable κ) (notes : τ) :
    (runWatched? con budget watch notes (m, w)).Rel
      (fun ending ending' => ending' = ending.noted ending'.console.calls)
      (runWatched? con.journaled budget watch notes (m, w.noted [])) := by
  have states : Beside SameConsole (m, w) (m, w.noted []) := ⟨rfl, w.noted_sameConsole []⟩
  have same := runWatched?_parallel (Console.journaled_mirrors con) (fun _ _ => congrArg _) budget
    watch states notes
  generalize runWatched? con budget watch notes (m, w) = run at same ⊢
  generalize runWatched? con.journaled budget watch notes (m, w.noted []) = run' at same ⊢
  cases same with
  | none => exact .none
  | some matched => exact .some matched.eq_noted

section Ended
variable {con : Console (Cancellable κ)} {budget : Option UInt64} {watch : Watcher τ} {m : Machine}
  {w : Cancellable κ} {notes : τ}

private theorem pumps_noted_nil (w : Cancellable κ) : pumps (w.noted []).calls = 0 := by
  rw [Cancellable.calls_noted]
  rfl

/-- The pumps before the last turn and the one in it, if there is one, make up the total. -/
private theorem scheduled_of_runWatched? {ending : Ending (Journaled κ) τ}
    (ended : runWatched? con.journaled budget watch notes (m, w.noted []) = some ending) :
    ∃ n, ending.machine.cycles.toNat = m.cycles.toNat + n ∧
      (∀ summary, ending.result = .ok summary → summary.executed.toNat = n) ∧
      Scheduled con.journaled watch ⟨m, w.noted [], notes⟩ n ending := by
  obtain ⟨n, p, reached, hx, room⟩ := exists_exit_of_runWatched? ended
  obtain ⟨running, turn⟩ := turn_of_exit hx
  obtain ⟨count, executed⟩ := hx.counts reached.cycles_eq room
  have before := reached.pumps_eq
  have total := turn.pumps_eq
  rw [pumps_noted_nil, Nat.zero_add] at before
  rw [before] at total
  refine ⟨n, count, executed, reached.turns, ⟨p, reached, running, turn⟩, ?_⟩
  rw [total]
  cases halted : ending.isHalted with
  | true =>
    have stopped : p.machine.state ≠ .running := by simp [running, halted]
    rw [if_neg fun due => stopped due.1]
    rfl
  | false =>
    simp only [running.2 halted, true_and, Bool.false_eq_true, if_false]
    split <;> omega

/-- A request to stop that comes from a pump ends the run in the same turn. -/
private theorem cancelled_of_pump {n : Nat} {p : Pause (Journaled κ) τ}
    {v : Cancellable (Journaled κ)}
    (reached : Reached con.journaled watch ⟨m, w.noted [], notes⟩ n p)
    (unended : Unended con.journaled budget watch ⟨m, w.noted [], notes⟩ n)
    (room : m.cycles.toNat + n < UInt64.size) (running : p.machine.state = .running)
    (due : n % 1024 = 0) (pump : con.journaled.pump p.console = .ok () v)
    (raised : v.cancelled = true) :
    ∃ ending executed, runWatched? con.journaled budget watch notes (m, w.noted []) = some ending ∧
      ending.machine = p.machine ∧ ending.result = .ok ⟨executed, .cancelled⟩ ∧
      executed.toNat = (pumps v.calls - 1) * 1024 := by
  have hx : Exit con.journaled budget watch m.cycles n p _ :=
    .cancelled running ((pumped_of_due due).trans pump) raised
  have ended : runWatched? con.journaled budget watch notes (m, w.noted []) = _ :=
    (watchFrom?_of_reached reached unended room).trans (watchFrom?_of_exit hx reached.cycles_eq)
  have before := reached.pumps_eq
  have last := (turn_of_pump ((pumped_of_due due).trans pump)).pumps_eq
  rw [before, pumps_noted_nil, if_pos due, stateLeft] at last
  have executed : (UInt64.ofNat n).toNat = n := UInt64.toNat_ofNat_of_lt' (by omega)
  refine ⟨_, _, ended, rfl, rfl, ?_⟩
  rw [executed, last]
  omega

end Ended

/-- A run that ends after `n` instructions has pumped its console first thing in each turn whose
number is a multiple of 1024, the last one included unless the machine has halted. So if the first
request to stop comes from a pump, the number of pumps tells how far the run has come. -/
theorem pump_schedule (con : Console (Cancellable κ)) (budget : Option UInt64) (watch : Watcher τ)
    (m : Machine) (w : Cancellable κ) (notes : τ) :
    (∀ ending, runWatched? con budget watch notes (m, w) = some ending → ∃ calls n,
      runWatched? con.journaled budget watch notes (m, w.noted []) = some (ending.noted calls) ∧
      ending.machine.cycles.toNat = m.cycles.toNat + n ∧
      (∀ summary, ending.result = .ok summary → summary.executed.toNat = n) ∧
      Scheduled con.journaled watch ⟨m, w.noted [], notes⟩ n (ending.noted calls)) ∧
    ∀ n p v, Reached con.journaled watch ⟨m, w.noted [], notes⟩ n p →
      Unended con.journaled budget watch ⟨m, w.noted [], notes⟩ n →
      m.cycles.toNat + n < UInt64.size → p.machine.state = .running → n % 1024 = 0 →
      con.journaled.pump p.console = .ok () v → v.cancelled = true →
      ∃ ending executed, runWatched? con budget watch notes (m, w) = some ending ∧
        ending.machine = p.machine ∧ ending.result = .ok ⟨executed, .cancelled⟩ ∧
        executed.toNat = (pumps v.calls - 1) * 1024 := by
  have same := runWatched?_journaled con budget watch m w notes
  constructor
  · intro ending ended
    rw [ended] at same
    generalize journaled : runWatched? con.journaled _ _ _ _ = run at same
    cases same with
    | @some _ ending' noted =>
      have scheduled := scheduled_of_runWatched? journaled
      rw [noted] at scheduled
      obtain ⟨n, scheduled⟩ := scheduled
      exact ⟨_, n, congrArg some noted, scheduled⟩
  · intro n p v reached unended room running due pump raised
    obtain ⟨ending', executed, journaled, machine, result, count⟩ :=
      cancelled_of_pump reached unended room running due pump raised
    rw [journaled] at same
    generalize ended : runWatched? con budget watch notes (m, w) = run at same
    cases same with
    | @some ending _ noted =>
      refine ⟨ending, executed, rfl, ?_, ?_, count⟩
      · rw [← machine, noted]
        rfl
      · rw [← result, noted]
        rfl

/-- An instruction that branches to itself leaves nothing changed but the count. -/
private theorem step_of_self_branch {σ : Type} (con : Console σ) (count : UInt64) (c : σ) :
    let m : Machine := { mem := Memory.set {} startAddress 0x0FFF }
    step con ({ m with cycles := count }, c) =
      .ok (.br 7 0xFFFF) ({ m with cycles := count + 1 }, c) := by
  intro m
  have hm : Memory.read con m.regs.pc (m.mem, c) = .ok 0x0FFF (m.mem, c) := by
    change Memory.read con startAddress (m.mem, c) = _
    rw [Memory.read_of_ne (by decide), Memory.peek_set, if_pos rfl]
  have hd : Instruction.decode 0x0FFF = .ok (.br 7 0xFFFF) := by cbv
  have back : (if m.regs.advance.selectedBy 7 then
      { m.regs.advance with pc := m.regs.advance.pc + 0xFFFF } else m.regs.advance) = m.regs := by
    decide
  let withRegs (regs : Registers) : Machine := { m with regs, cycles := count }
  have hx : execute con (.br 7 0xFFFF) (fetched (withRegs m.regs) m.mem, c) =
      .ok () (withRegs m.regs, c) :=
    congrArg (fun regs => EStateM.Result.ok () (withRegs regs, c)) back
  exact step_of_execute (m := withRegs m.regs) rfl hm hd hx

/-- A machine that branches to itself for ever, and a console whose second pump asks it to stop. -/
theorem pump_schedule_of_second_pump :
    let con : Console (Cancellable Nat) := {
      pollKey := fun w => .ok none w
      readKey := fun w => .ok 0x41 w
      writeByte := fun _ w => .ok () w
      flush := fun w => .ok () w
      pump := fun w => .ok () ⟨w.console + 1, w.console = 1⟩ }
    let m : Machine := { mem := Memory.set {} startAddress 0x0FFF }
    ∃ ending executed, runUntil? con none (m, ⟨0, false⟩) = some ending ∧
      ending.result = .ok ⟨executed, .cancelled⟩ ∧ executed.toNat = 1024 := by
  intro con m
  let watch : Watcher Unit := fun _ () => ((), false)
  let start : Pause (Journaled Nat) Unit := ⟨m, ⟨⟨0, []⟩, false⟩, ()⟩
  let pumpedOnce : Cancellable (Journaled Nat) := ⟨⟨1, [⟨.pump, none⟩]⟩, false⟩
  let turn (k : Nat) : Pause (Journaled Nat) Unit :=
    ⟨{ m with cycles := UInt64.ofNat k }, pumpedOnce, ()⟩
  have branch (count : UInt64) : step con.journaled ({ m with cycles := count }, pumpedOnce) =
      .ok (.br 7 0xFFFF) ({ m with cycles := count + 1 }, pumpedOnce) :=
    step_of_self_branch con.journaled count pumpedOnce
  have unlimited (m : Machine) : ¬ UsedUp none 0 m := by
    rintro ⟨max, bounded, -⟩
    cases bounded
  have course (k : Nat) (hk : k < 1024) : Reached con.journaled watch start (k + 1) (turn (k + 1)) ∧
      Unended con.journaled none watch start (k + 1) := by
    induction k with
    | zero =>
      have pump : pumped con.journaled 0 start.console = .ok () pumpedOnce := rfl
      have clear : Clear con.journaled none 0 0 start pumpedOnce :=
        ⟨rfl, pump, rfl, unlimited _⟩
      have before : Unended con.journaled none watch start 0 := fun k hk => absurd hk (by omega)
      exact ⟨.step .start pump (branch 0), before.succ .start clear (branch 0)⟩
    | succ k ih =>
      obtain ⟨reached, unended⟩ := ih (by omega)
      have pump : pumped con.journaled (k + 1) pumpedOnce = .ok () pumpedOnce :=
        if_neg (by omega)
      have clear : Clear con.journaled none 0 (k + 1) (turn (k + 1)) pumpedOnce :=
        ⟨rfl, pump, rfl, unlimited _⟩
      have done := branch (UInt64.ofNat (k + 1))
      have count : UInt64.ofNat (k + 1) + 1 = UInt64.ofNat (k + 1 + 1) :=
        (UInt64.ofNat_add (k + 1) 1).symm
      rw [count] at done
      exact ⟨reached.step pump done, unended.succ reached clear done⟩
  obtain ⟨reached, unended⟩ := course 1023 (by decide)
  obtain ⟨-, cancelled⟩ := pump_schedule con none watch m ⟨0, false⟩ ()
  obtain ⟨ending, executed, ended, -, result, count⟩ := cancelled 1024 (turn 1024)
    ⟨⟨2, [⟨.pump, none⟩, ⟨.pump, none⟩]⟩, true⟩ reached unended (by decide) rfl rfl rfl rfl
  exact ⟨ending, executed, ended, result, count⟩

end LittleComputer.Machine
