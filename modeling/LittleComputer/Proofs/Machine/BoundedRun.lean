import LittleComputer.Proofs.Machine.Budget

/-! Calls with a budget. They always return, having executed no more instructions than the budget
and the count allow, and where a budget is what has stopped them they have executed just as many. -/
namespace LittleComputer.Machine
variable {σ κ τ : Type}

/-- What has been done by a loop that goes on only below a limit. -/
structure Within (limit : UInt64) (m : Machine) (evs : List Event) (m' : Machine) : Prop where
  count : m'.cycles.toNat = m.cycles.toNat + completed evs
  le : m'.cycles ≤ limit
  below : ∀ e ∈ evs, e.before.cycles < limit
  failures : evs.length ≤ completed evs + 1

section
variable {limit : UInt64} {m m₁ m' : Machine} {evs : List Event}

theorem Within.here (start : m.cycles ≤ limit) : Within limit m [] m where
  count := (Nat.add_zero _).symm
  le := start
  below := List.forall_mem_nil _
  failures := Nat.zero_le _

theorem Within.failed {e : Error} (below : m.cycles < limit) (same : m'.cycles = m.cycles) :
    Within limit m [⟨m, .error e, m'⟩] m' where
  count := congrArg UInt64.toNat same
  le := by rw [same]; exact UInt64.le_of_lt below
  below := by simpa using below
  failures := Nat.le_refl _

theorem Within.done {i : Instruction Reg} (below : m.cycles < limit)
    (counted : m₁.cycles = m.cycles + 1) (rest : Within limit m₁ evs m') :
    Within limit m (⟨m, .ok i, m₁⟩ :: evs) m' := by
  have one : completed (⟨m, .ok i, m₁⟩ :: evs) = completed evs + 1 :=
    List.countP_cons_of_pos rfl
  have count := rest.count
  rw [counted, toNat_add_one_of_lt below] at count
  constructor
  · omega
  · exact rest.le
  · exact List.forall_mem_cons.2 ⟨below, rest.below⟩
  · have failures := rest.failures
    rw [List.length_cons]
    omega

/-- An instruction below the limit leads at most to it, so nothing is ever done beyond. -/
theorem Loop.Trace.within {l : Loop σ τ} {c : σ} {t : τ} {returned : Bool}
    (guarded : ∀ {m c t next}, l.next? m c t = some next → m.cycles < limit)
    (h : l.Trace m c t evs m' returned) (start : m.cycles ≤ limit) : Within limit m evs m' := by
  induction h with
  | here | left => exact .here start
  | failed h hs => exact .failed (guarded h) (cycles_of_step_error hs)
  | done h hs _ ih =>
    have below := guarded h
    have counted := cycles_of_step hs
    refine .done below counted (ih ?_)
    rw [UInt64.le_iff_toNat_le, counted, toNat_add_one_of_lt below]
    exact UInt64.lt_iff_toNat_lt.1 below

end

section Watched
variable {con : Console (Cancellable κ)} {executed start limit max n : UInt64} {watch : Watcher τ}
  {m : Machine} {w w' : Cancellable κ} {notes : τ}

private theorem lt_of_go (h : checkpoint con executed (some limit) m w = .go w') :
    m.cycles < limit := by
  rw [checkpoint] at h
  split at h
  next => cases h
  next =>
    split at h
    next => cases h
    next =>
      split at h
      next => cases h
      next =>
        split at h
        next => cases h
        next within => simpa using within

private theorem lt_of_next? {next : Cancellable κ × τ}
    (h : (Loop.watched con start (some limit) watch).next? m w notes = some next) :
    m.cycles < limit := by
  simp only [Loop.watched] at h
  split at h
  next => cases h
  next go => exact lt_of_go go

/-- Below a limit the count cannot start over, so a watched run with a limit returns. -/
private theorem exists_ending_of_limit (con : Console (Cancellable κ)) (start limit : UInt64)
    (watch : Watcher τ) (m : Machine) (w : Cancellable κ) (notes : τ) :
    ∃ ending, watchFrom? con start (some limit) watch m w notes = some ending := by
  fun_induction watchFrom? con start (some limit) watch m w notes with
  | case1 | case4 => exact ⟨_, rfl⟩
  | case2 m w notes w₁ go notes₁ cancels seen i m' w₂ done wrapped =>
    have count : m'.cycles = m.cycles + 1 := cycles_of_step done
    have below := toNat_add_one_of_lt (lt_of_go go)
    rw [← count, wrapped] at below
    cases below
  | case3 m w notes w₁ go notes₁ cancels seen i m' w₂ done room ih => exact ih

end Watched

/-- How many instructions a run says it has executed, and whether it was stopped by its limit. -/
def Ending.report? (ending : Ending κ τ) : Option (UInt64 × Bool) :=
  match ending.result with
  | .ok summary => some (summary.executed, summary.reason = .cycleLimit)
  | .error _ => none

/-- A run that was stopped by its limit has reached it. -/
private theorem counts_of_ending {con : Console (Cancellable κ)} {max n : UInt64}
    {watch : Watcher τ} {notes : τ} {m : Machine} {w : Cancellable κ} {ending : Ending κ τ}
    {atLimit : Bool} (ran : runWatched? con (some max) watch notes (m, w) = some ending)
    (report : ending.report? = some (n, atLimit)) :
    ending.machine.cycles.toNat = m.cycles.toNat + n.toNat ∧
      (atLimit = true → (limitFrom m.cycles max).toNat ≤ ending.machine.cycles.toNat) := by
  obtain ⟨k, p, reached, hx, room⟩ := exists_exit_of_runWatched? ran
  obtain ⟨count, executed⟩ := hx.counts reached.cycles_eq room
  rw [Ending.report?] at report
  split at report
  next summary ended =>
    cases report
    rw [executed _ ended]
    refine ⟨count, fun limited => ?_⟩
    have reason : summary.reason = .cycleLimit := by simpa using limited
    cases hx with
    | halted | cancelled | interrupted =>
      cases ended
      cases reason
    | pumpFailed | failed => cases ended
    | cycleLimit running pump lowered usedUp =>
      obtain ⟨_, ⟨⟩, reached⟩ := usedUp
      rw [limitFrom_toNat]
      exact reached
  next => cases report

namespace Call
variable {call : Call} {max n : UInt64} {atLimit returned : Bool} {m m' : Machine}
  {evs : List Event}

/-- The budget that a call is given. -/
def budget? : Call → Option UInt64
  | step .. | run .. => none
  | runLimited _ budget _ => some budget
  | runUntil _ budget _ | runWatched _ budget .. => budget

/-- How many instructions a call with a budget says it has executed, and whether it has stopped at
its limit: where it gives no reason, this shows in a machine that is still running. -/
def report? : Call → Machine → Option (UInt64 × Bool)
  | step .., _ | run .., _ => none
  | runLimited con budget c, m =>
    match Machine.runLimited con budget (m, c) with
    | .ok n s => some (n, s.1.isRunning)
    | .error _ _ => none
  | runUntil con budget w, m => (runUntil? con budget (m, w)).bind Ending.report?
  | runWatched con budget watch notes w, m =>
    (runWatched? con budget watch notes (m, w)).bind Ending.report?

theorem exists_left (bounded : call.budget? = some max) (m : Machine) :
    ∃ m', call.left? m = some m' := by
  cases call with
  | step | run => cases bounded
  | runLimited => exact ⟨_, rfl⟩
  | runUntil con budget w =>
    obtain rfl : budget = some max := bounded
    obtain ⟨ending, h⟩ := exists_ending_of_limit con m.cycles (limitFrom m.cycles max) _ m w ()
    exact ⟨ending.machine, congrArg (Option.map Ending.machine) h⟩
  | runWatched con budget watch notes w =>
    obtain rfl : budget = some max := bounded
    obtain ⟨ending, h⟩ :=
      exists_ending_of_limit con m.cycles (limitFrom m.cycles max) watch m w notes
    exact ⟨ending.machine, congrArg (Option.map Ending.machine) h⟩

theorem Trace.within (bounded : call.budget? = some max) (h : call.Trace m evs m' returned) :
    Within (limitFrom m.cycles max) m evs m' := by
  have start := le_limitFrom m.cycles max
  cases call with
  | step | run => cases bounded
  | runLimited con budget c =>
    obtain rfl : budget = max := Option.some.inj bounded
    refine Loop.Trace.within (fun next => ?_) h start
    simp only [Loop.below, Option.ite_none_right_eq_some] at next
    exact next.1.2
  | runUntil con budget w | runWatched con budget watch notes w =>
    obtain rfl : budget = some max := bounded
    exact Loop.Trace.within lt_of_next? h start

theorem counts_of_report (bounded : call.budget? = some max) (left : call.left? m = some m')
    (report : call.report? m = some (n, atLimit)) :
    m'.cycles.toNat = m.cycles.toNat + n.toNat ∧
      (atLimit = true → (limitFrom m.cycles max).toNat ≤ m'.cycles.toNat) := by
  cases call with
  | step | run => cases bounded
  | runLimited con budget c =>
    obtain rfl : budget = max := Option.some.inj bounded
    simp only [report?] at report
    cases left
    cases ran : Machine.runLimited con budget (m, c) with
    | error e s => simp [ran] at report
    | ok k s =>
      rw [ran] at report
      cases report
      refine ⟨toNat_cycles_of_runLimited ran, fun running => ?_⟩
      rw [runLimited_eq, counted_eq_ok] at ran
      obtain ⟨-, -, paused⟩ := runTo_eq_ok (le_limitFrom _ _) ran.1
      exact Nat.le_of_eq (congrArg UInt64.toNat (paused ((isRunning_iff _).1 running)).symm)
  | runUntil con budget w | runWatched con budget watch notes w =>
    obtain rfl : budget = some max := bounded
    obtain ⟨ending, ran, rfl⟩ := Option.map_eq_some_iff.1 left
    obtain ⟨ending', ran', report⟩ := Option.bind_eq_some_iff.1 report
    cases ran.symm.trans ran'
    exact counts_of_ending ran report

end Call

/-- A call with a budget returns. On the way it executes at most as many instructions as the budget
and the count allow, one more may fail, and none is attempted at the largest count. The number that
it reports is that of its instructions, and if it was stopped at its limit it is all there was room
for. -/
theorem bounded_run_stops {call : Call} {max : UInt64} (bounded : call.budget? = some max)
    (m : Machine) :
    ∃ m' evs, call.left? m = some m' ∧ call.Trace m evs m' true ∧
      (∀ n atLimit, call.report? m = some (n, atLimit) → n.toNat = completed evs ∧
        (atLimit = true → n.toNat = min max.toNat (UInt64.size - 1 - m.cycles.toNat))) ∧
      ∀ evs m' returned, call.Trace m evs m' returned →
        completed evs ≤ min max.toNat (UInt64.size - 1 - m.cycles.toNat) ∧
        evs.length ≤ completed evs + 1 ∧ (∀ e ∈ evs, e.before.cycles.toNat < UInt64.size - 1) ∧
        m'.cycles.toNat = m.cycles.toNat + completed evs := by
  obtain ⟨m', left⟩ := call.exists_left bounded m
  obtain ⟨evs, trace⟩ := Call.trace_of_left? left
  have limit := limitFrom_toNat m.cycles max
  refine ⟨m', evs, left, trace, ?_, ?_⟩
  · intro n atLimit report
    have within := trace.within bounded
    have count := within.count
    have le := UInt64.le_iff_toNat_le.1 within.le
    obtain ⟨counts, stopped⟩ := Call.counts_of_report bounded left report
    refine ⟨by omega, fun limited => ?_⟩
    have reached := stopped limited
    omega
  · intro evs m' returned trace
    have within := trace.within bounded
    have count := within.count
    have le := UInt64.le_iff_toNat_le.1 within.le
    refine ⟨by omega, within.failures, fun e he => ?_, count⟩
    have below := UInt64.lt_iff_toNat_lt.1 (within.below e he)
    omega

/-- A machine whose count has room for one instruction, and a budget of five. -/
theorem bounded_run_stops_of_one_left :
    let con : Console Unit := {
      pollKey := fun _ => .ok none ()
      readKey := fun _ => .ok 0x41 ()
      writeByte := fun _ _ => .ok () ()
      flush := fun _ => .ok () () }
    let call := Call.runLimited con 5 ()
    let m : Machine := { cycles := 0xFFFFFFFFFFFFFFFE }
    call.budget? = some 5 ∧ call.report? m = some (1, true) ∧
      ∃ m' evs, call.left? m = some m' ∧ call.Trace m evs m' true ∧ completed evs = 1 ∧
        m'.cycles = 0xFFFFFFFFFFFFFFFF := by
  intro con call m
  have hm : Memory.read con m.regs.pc (m.mem, ()) = .ok 0 (m.mem, ()) := by
    change Memory.read con startAddress (m.mem, ()) = _
    rw [Memory.read_of_ne (by decide), Memory.peek_empty]
  have hd : Instruction.decode 0 = .ok (.br 0 0) := by cbv
  obtain ⟨m₁, done, count₁, running⟩ : ∃ m₁, step con (m, ()) = .ok (.br 0 0) (m₁, ()) ∧
      m₁.cycles = m.cycles + 1 ∧ m₁.state = .running :=
    ⟨_, step_of_execute rfl hm hd rfl, rfl, rfl⟩
  have limit : limitFrom m.cycles 5 = m.cycles + 1 := by decide
  have below : m.cycles < m.cycles + 1 := by decide
  have stopped : runTo con (m.cycles + 1) (m₁, ()) = .ok () (m₁, ()) :=
    runTo_of_not fun go => absurd go.2 (by simp [count₁])
  have ran : runLimited con 5 (m, ()) = .ok 1 (m₁, ()) := by
    rw [runLimited_eq, counted_eq_ok]
    refine ⟨?_, by rw [count₁]; decide⟩
    calc runTo con (limitFrom m.cycles 5) (m, ()) = runTo con (m.cycles + 1) (m, ()) :=
          congrArg (runTo con · (m, ())) limit
      _ = runTo con (m.cycles + 1) (m₁, ()) := runTo_of_step rfl below done
      _ = .ok () (m₁, ()) := stopped
  have report : call.report? m = some (1, true) := by
    rw [Call.report?, ran]
    exact congrArg (fun b => some (1, b)) ((isRunning_iff m₁).2 running)
  have bounded : call.budget? = some 5 := rfl
  obtain ⟨m', evs, left, trace, reported, within⟩ := bounded_run_stops bounded m
  obtain ⟨executed, -⟩ := reported 1 true report
  obtain ⟨-, -, -, count⟩ := within evs m' true trace
  have one : completed evs = 1 := executed.symm
  rw [one] at count
  exact ⟨bounded, report, m', evs, left, trace, one, UInt64.toNat_inj.1 count⟩

end LittleComputer.Machine
