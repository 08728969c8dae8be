import LittleComputer.Console.Buffer
import LittleComputer.Proofs.Machine.Budget
import LittleComputer.Proofs.Machine.CalmRun
import LittleComputer.Proofs.Machine.Stepping
import LittleComputer.Proofs.Registers

/-! Runs that are cancelled and taken up again. Someone who asks to stop is heard between two
instructions, so a run that is taken up each time, until it comes to another end, does what one
run does that nobody cancels. -/
namespace LittleComputer

namespace Console
variable {κ κ' : Type}

/-- The same error, which is not an interruption. -/
def SameUninterrupted (e e' : Error) : Prop := e = e' ∧ e.kind ≠ .interrupted

/-- A console whose calls may raise the flag, and are otherwise those of a console that does not
know of it. Neither is ever interrupted, and no pump does anything. -/
structure Flagging (con : Console (Cancellable κ)) (view : κ → κ') (base : Console κ') : Prop where
  mirrors : con.Mirrors SameUninterrupted (fun w c => view w.console = c) base
  pump : ∀ w, con.pump w = .ok () w
  base_pump : ∀ c, base.pump c = .ok () c

/-- A console every call of which raises the flag, except its pump. -/
def raising (base : Console κ) : Console (Cancellable κ) where
  pollKey := raised base.pollKey
  readKey := raised base.readKey
  writeByte b := raised (base.writeByte b)
  flush := raised base.flush
where
  raised {α : Type} (x : EStateM Error κ α) : EStateM Error (Cancellable κ) α := fun w =>
    match x w.console with
    | .ok a c => .ok a ⟨c, true⟩
    | .error e c => .error e ⟨c, true⟩

theorem raising_flagging {base : Console κ} (h : base.Mirrors SameUninterrupted Eq base)
    (idle : ∀ c, base.pump c = .ok () c) : base.raising.Flagging id base := by
  have raised {α : Type} {x : EStateM Error κ α} (hx : Parallel SameUninterrupted Eq x x) :
      Parallel SameUninterrupted (fun (w : Cancellable κ) c => id w.console = c)
        (raising.raised x) x := by
    rintro ⟨c, flag⟩ _ rfl
    have called := hx c c rfl
    simp only [raising.raised, id]
    generalize x c = r at called
    cases called with
    | ok a => exact .ok a rfl
    | error errors => exact .error errors rfl
  refine ⟨⟨raised h.pollKey, raised h.readKey, fun b => raised (h.writeByte b), raised h.flush, ?_⟩,
    fun _ => rfl, idle⟩
  rintro w _ rfl
  rw [idle]
  exact .ok () rfl

/-- A buffer's calls are never interrupted. -/
theorem Buffer.uninterrupted :
    Buffer.console.Mirrors SameUninterrupted Eq Buffer.console where
  pollKey := by
    rintro ⟨_ | ⟨k, keys⟩, output⟩ _ rfl <;> exact .ok _ rfl
  readKey := by
    rintro ⟨_ | ⟨k, keys⟩, output⟩ _ rfl
    · exact .error ⟨rfl, nofun⟩ rfl
    · exact .ok _ rfl
  writeByte b := by
    rintro _ _ rfl
    exact .ok () rfl
  flush := .pure ()
  pump := .pure ()

end Console

namespace Machine
variable {κ κ' τ : Type}

/-- What a watcher does who never asks for a run to be cancelled. -/
def unraised (watch : Watcher τ) : Watcher τ := fun m notes => ((watch m notes).1, false)

/-- What is seen of a console, with the flag down. -/
def lowered (view : κ → κ') (w : Cancellable κ) : Cancellable κ' := ⟨view w.console, false⟩

def Ending.isCancelled (ending : Ending κ τ) : Bool :=
  match ending.result with
  | .ok summary => summary.reason = .cancelled
  | .error _ => false

/-- A run that is taken up whenever it was cancelled, with the flag lowered and with what is left
of its budget, comes to an end at last. The number counts the instructions before the last part. -/
inductive Resumed (con : Console (Cancellable κ)) (watch : Watcher τ) :
    Option UInt64 → Machine × Cancellable κ → τ → Nat → Ending κ τ → Prop
  | last {budget : Option UInt64} {s : Machine × Cancellable κ} {notes : τ} {final : Ending κ τ}
      (ran : runWatched? con budget watch notes s = some final)
      (settled : final.isCancelled = false) : Resumed con watch budget s notes 0 final
  | again {budget : Option UInt64} {s : Machine × Cancellable κ} {notes : τ} {n : UInt64}
      {total : Nat} {part final : Ending κ τ}
      (ran : runWatched? con budget watch notes s = some part)
      (cancelled : part.result = .ok ⟨n, .cancelled⟩)
      (rest : Resumed con watch (budget.map (· - n)) (part.machine, lowered id part.console)
        part.notes total final) :
      Resumed con watch budget s notes (n.toNat + total) final

/-- Two runs have ended alike, where the first had executed `earlier` instructions before the part
that ended. -/
structure Ending.Alike (view : κ → κ') (earlier : Nat) (final : Ending κ τ)
    (single : Ending κ' τ) : Prop where
  machine : final.machine = single.machine
  console : lowered view final.console = single.console
  notes : final.notes = single.notes
  result : final.result.map (fun summary => (earlier + summary.executed.toNat, summary.reason)) =
    single.result.map fun summary => (summary.executed.toNat, summary.reason)

theorem Ending.isCancelled_iff (ending : Ending κ τ) :
    ending.isCancelled = true ↔ ∃ n, ending.result = .ok ⟨n, .cancelled⟩ := by
  rcases ending with ⟨m, w, notes, e | ⟨n, reason⟩⟩ <;> simp [isCancelled]

/-- An instruction that was not interrupted ends a run with its error, whatever the flag says. -/
theorem Error.Matches.uninterrupted {e e' : Error}
    (h : Error.Matches Console.SameUninterrupted e e') :
    e = e' ∧ ∀ cancelled, endedBy e cancelled = .error e := by
  cases h with
  | notRunning | fault => exact ⟨rfl, fun _ => rfl⟩
  | console causes => exact ⟨congrArg _ causes.1, fun _ => if_neg fun h => causes.2 h.1⟩

section Part
variable {con : Console (Cancellable κ)} {view : κ → κ'} {base : Console κ'}
  (flagging : con.Flagging view base) {start start₀ : UInt64} {limit : Option UInt64}
  {watch : Watcher τ} {m : Machine} {w : Cancellable κ} {notes : τ} {part : Ending κ τ}

/-- How a part of a run looks as the end of the whole, which began at a count of `start`. -/
def Ending.seen (view : κ → κ') (start : UInt64) (part : Ending κ τ) : Ending κ' τ :=
  ⟨part.machine, lowered view part.console, part.notes,
    part.result.map fun summary => ⟨part.machine.cycles - start, summary.reason⟩⟩

/-- What a run that nobody cancels does from where a part has ended. -/
def Ending.carriedOn (base : Console κ') (view : κ → κ') (start : UInt64) (limit : Option UInt64)
    (watch : Watcher τ) (part : Ending κ τ) : Option (Ending κ' τ) :=
  if part.isCancelled then
    watchFrom? base.beside start limit (unraised watch) part.machine (lowered view part.console)
      part.notes
  else some (part.seen view start)

include flagging

private theorem step_lowered {i : Instruction Reg} {m' : Machine} {w' : Cancellable κ}
    {cancels : Bool} (done : step con (m, { w with cancelled := cancels }) = .ok i (m', w')) :
    step base.beside (m, lowered view w) = .ok i (m', lowered view w') := by
  obtain ⟨⟨_, v⟩, done', rfl, hv, down⟩ :=
    (step_parallel flagging.mirrors.beside_lowered).of_ok (t := (m, lowered view w))
      ⟨rfl, rfl, rfl⟩ done
  have same : lowered view w' = v := congr (congrArg Cancellable.mk hv) down.symm
  rw [same]
  exact done'

/-- An instruction that fails ends a run with its error, whatever the flag says. -/
private theorem step_lowered_error {e : Error} {m' : Machine} {w' : Cancellable κ}
    {cancels : Bool} (failed : step con (m, { w with cancelled := cancels }) = .error e (m', w')) :
    step base.beside (m, lowered view w) = .error e (m', lowered view w') ∧
      ∀ cancelled, endedBy e cancelled = .error e := by
  obtain ⟨_, ⟨_, v⟩, failed', errors, rfl, hv, down⟩ :=
    (step_parallel flagging.mirrors.beside_lowered).of_error (t := (m, lowered view w))
      ⟨rfl, rfl, rfl⟩ failed
  have same : lowered view w' = v := congr (congrArg Cancellable.mk hv) down.symm
  obtain ⟨rfl, final⟩ := errors.uninterrupted
  rw [same]
  exact ⟨failed', final⟩

/-- A run that nobody cancels does a part first and then goes on from there. -/
theorem watchFrom?_unraised (start start₀ : UInt64) (limit : Option UInt64) (watch : Watcher τ)
    (m : Machine) (w : Cancellable κ) (notes : τ) :
    watchFrom? base.beside start₀ limit (unraised watch) m (lowered view w) notes =
      (watchFrom? con start limit watch m w notes).bind
        (Ending.carriedOn base view start₀ limit watch) := by
  have calm := Console.beside_calm flagging.base_pump
  have silent : Silent (unraised watch) := fun _ _ => rfl
  fun_induction watchFrom? con start limit watch m w notes with
  | case1 m w notes result w' stop =>
    obtain ⟨rfl, ⟨stopped, rfl⟩ | ⟨-, -, rfl⟩ | ⟨running, -, reached, rfl⟩⟩ :=
      (checkpoint_eq_stop (flagging.pump w)).1 stop
    · exact watchFrom?_of_calm_stopped (s := (m, lowered view w')) calm rfl start₀ stopped
    · rfl
    · exact watchFrom?_of_calm_limit (s := (m, lowered view w')) calm rfl start₀ running reached
  | case2 m w notes w₁ go notes₁ cancels seen i m' w' done wrapped =>
    obtain ⟨running, -, within, rfl⟩ := (checkpoint_eq_go (flagging.pump w)).1 go
    have done' := step_lowered flagging done
    rw [watchFrom?_of_calm_step calm rfl start₀ running within silent done', if_pos wrapped]
    rfl
  | case3 m w notes w₁ go notes₁ cancels seen i m' w' done room ih =>
    obtain ⟨running, -, within, rfl⟩ := (checkpoint_eq_go (flagging.pump w)).1 go
    have done' := step_lowered flagging done
    rw [watchFrom?_of_calm_step calm rfl start₀ running within silent done', if_neg room, unraised,
      seen]
    exact ih
  | case4 m w notes w₁ go notes₁ cancels seen e m' w' failed =>
    obtain ⟨running, -, within, rfl⟩ := (checkpoint_eq_go (flagging.pump w)).1 go
    obtain ⟨failed', final⟩ := step_lowered_error flagging failed
    rw [watchFrom?_of_calm_error calm rfl start₀ running within silent failed', unraised, seen,
      final]
    rfl

/-- What the counts are where a part of a run has ended. -/
structure Progress (start : UInt64) (limit : Option UInt64) (m : Machine) (w : Cancellable κ)
    (part : Ending κ τ) : Prop where
  grows : m.cycles.toNat ≤ part.machine.cycles.toNat
  within : ∀ l ∈ limit, part.machine.cycles.toNat ≤ l.toNat
  executed : ∀ n reason, part.result = .ok ⟨n, reason⟩ → n = part.machine.cycles - start
  moves : part.isCancelled → w.cancelled = true ∨ m.cycles.toNat < part.machine.cycles.toNat

theorem progress (below : ∀ l ∈ limit, m.cycles.toNat ≤ l.toNat)
    (ran : watchFrom? con start limit watch m w notes = some part) :
    Progress start limit m w part := by
  fun_induction watchFrom? con start limit watch m w notes with
  | case1 m w notes result w' stop =>
    obtain ⟨rfl, h⟩ := (checkpoint_eq_stop (flagging.pump w)).1 stop
    cases ran
    constructor
    · exact Nat.le_refl _
    · exact below
    · intro n reason ended
      obtain ⟨-, rfl⟩ | ⟨-, -, rfl⟩ | ⟨-, -, -, rfl⟩ := h <;> cases ended <;> rfl
    · intro cancelled
      obtain ⟨-, rfl⟩ | ⟨-, raised, -⟩ | ⟨-, -, -, rfl⟩ := h
      · cases cancelled
      · exact .inl raised
      · cases cancelled
  | case2 => cases ran
  | case3 m w notes w₁ go notes₁ cancels seen i m' w' done room ih =>
    obtain ⟨running, -, within, rfl⟩ := (checkpoint_eq_go (flagging.pump w)).1 go
    have count : m'.cycles = m.cycles + 1 := cycles_of_step done
    have grown := toNat_add_one_of_ne (count ▸ room)
    rw [← count] at grown
    have below' (l : UInt64) (hl : l ∈ limit) : m'.cycles.toNat ≤ l.toNat := by
      have hlt : m.cycles < l := by simpa [Option.mem_def.1 hl] using within
      rw [UInt64.lt_iff_toNat_lt] at hlt
      omega
    have later := ih below' ran
    have grows := later.grows
    exact ⟨by omega, later.within, later.executed, fun _ => .inr (by omega)⟩
  | case4 m w notes w₁ go notes₁ cancels seen e m' w' failed =>
    have count : m'.cycles = m.cycles := cycles_of_step_error failed
    have final := (step_lowered_error flagging failed).2
    obtain ⟨-, -, -, rfl⟩ := (checkpoint_eq_go (flagging.pump w)).1 go
    cases ran
    simp only [final]
    constructor
    · exact Nat.le_of_eq (by rw [count])
    · simpa only [count] using below
    · intro n reason ended
      cases ended
    · intro cancelled
      cases cancelled

end Part

section Whole
variable {con : Console (Cancellable κ)} {view : κ → κ'} {base : Console κ'}
  (flagging : con.Flagging view base) {watch : Watcher τ} {budget : Option UInt64}
  {s : Machine × Cancellable κ} {notes : τ}
include flagging

private theorem progress_of_runWatched? {part : Ending κ τ}
    (ran : runWatched? con budget watch notes s = some part) :
    Progress s.1.cycles (budget.map (limitFrom s.1.cycles)) s.1 s.2 part := by
  refine progress flagging (fun l hl => ?_) ran
  obtain ⟨max, -, rfl⟩ := Option.map_eq_some_iff.1 hl
  exact UInt64.le_iff_toNat_le.1 (le_limitFrom _ _)

/-- A run that is taken up has the limit it had before, and the counts of its parts add up. -/
private theorem limit_of_cancelled {part : Ending κ τ} {n : UInt64}
    (ran : runWatched? con budget watch notes s = some part)
    (cancelled : part.result = .ok ⟨n, .cancelled⟩) :
    (budget.map (· - n)).map (limitFrom part.machine.cycles) =
        budget.map (limitFrom s.1.cycles) ∧
      s.1.cycles.toNat + n.toNat = part.machine.cycles.toNat := by
  have done := progress_of_runWatched? flagging ran
  have grows := UInt64.le_iff_toNat_le.2 done.grows
  obtain rfl := done.executed _ _ cancelled
  constructor
  · cases budget with
    | none => rfl
    | some max =>
      exact congrArg some (limitFrom_rest grows (UInt64.le_iff_toNat_le.2 (done.within _ rfl)))
  · have hn := UInt64.toNat_sub_of_le _ _ grows
    rw [UInt64.le_iff_toNat_le] at grows
    omega

private theorem unraised_of_part {part : Ending κ τ}
    (ran : runWatched? con budget watch notes s = some part) (start : UInt64) :
    watchFrom? base.beside start (budget.map (limitFrom s.1.cycles)) (unraised watch) s.1
        (lowered view s.2) notes =
      part.carriedOn base view start (budget.map (limitFrom s.1.cycles)) watch := by
  rw [runWatched?] at ran
  rw [watchFrom?_unraised flagging s.1.cycles, ran, Option.bind_some]

/-- All parts together are one run that nobody cancels. -/
private theorem Resumed.unraised_eq {total : Nat} {final : Ending κ τ}
    (h : Resumed con watch budget s notes total final) (start : UInt64) :
    watchFrom? base.beside start (budget.map (limitFrom s.1.cycles)) (unraised watch) s.1
      (lowered view s.2) notes = some (final.seen view start) := by
  induction h with
  | last ran settled =>
    rw [unraised_of_part flagging ran, Ending.carriedOn, if_neg (by simp [settled])]
  | @again budget s notes n total part final ran cancelled rest ih =>
    obtain ⟨limits, -⟩ := limit_of_cancelled flagging ran cancelled
    rw [unraised_of_part flagging ran, Ending.carriedOn,
      if_pos ((Ending.isCancelled_iff _).2 ⟨n, cancelled⟩), ← limits]
    exact ih

/-- The instructions of all parts together are what the machine's count has grown by. -/
private theorem Resumed.cycles_eq {total : Nat} {final : Ending κ τ} {n : UInt64}
    {reason : StopReason} (h : Resumed con watch budget s notes total final)
    (ended : final.result = .ok ⟨n, reason⟩) :
    s.1.cycles.toNat + (total + n.toNat) = final.machine.cycles.toNat := by
  induction h with
  | @last budget s notes final ran settled =>
    have done := progress_of_runWatched? flagging ran
    have hn := UInt64.toNat_sub_of_le _ _ (UInt64.le_iff_toNat_le.2 done.grows)
    rw [← done.executed _ _ ended] at hn
    have grows := done.grows
    omega
  | again ran cancelled rest ih =>
    obtain ⟨-, counts⟩ := limit_of_cancelled flagging ran cancelled
    have later := ih ended
    simp only at later
    omega

private theorem Resumed.alike {total : Nat} {final : Ending κ τ}
    (h : Resumed con watch budget s notes total final) :
    final.Alike view total (final.seen view s.1.cycles) where
  machine := rfl
  console := rfl
  notes := rfl
  result := by
    cases ended : final.result with
    | error e => rw [Ending.seen, ended]; rfl
    | ok summary =>
      have counts := h.cycles_eq flagging ended
      have grows : s.1.cycles ≤ final.machine.cycles := by
        rw [UInt64.le_iff_toNat_le]
        omega
      have hn := UInt64.toNat_sub_of_le _ _ grows
      have same : (final.machine.cycles - s.1.cycles).toNat = total + summary.executed.toNat := by
        omega
      rw [Ending.seen, ended]
      simp only [Except.map, same]

/-- If a run that nobody cancels comes to an end, there are only finitely many parts. -/
private theorem exists_resumed {start : UInt64} {single : Ending κ' τ}
    (h : watchFrom? base.beside start (budget.map (limitFrom s.1.cycles)) (unraised watch) s.1
      (lowered view s.2) notes = some single) :
    ∃ total final, Resumed con watch budget s notes total final := by
  -- A part leaves the count less room, unless the flag was up before it began.
  induction hd : 2 * (UInt64.size - s.1.cycles.toNat) + s.2.cancelled.toNat using
    Nat.strongRecOn generalizing s budget notes with
  | ind d ih =>
    subst hd
    cases ran : runWatched? con budget watch notes s with
    | none =>
      rw [runWatched?] at ran
      rw [watchFrom?_unraised flagging s.1.cycles, ran] at h
      cases h
    | some part =>
      rw [unraised_of_part flagging ran, Ending.carriedOn] at h
      cases settled : part.isCancelled with
      | false => exact ⟨_, _, .last ran settled⟩
      | true =>
        obtain ⟨n, cancelled⟩ := (Ending.isCancelled_iff _).1 settled
        obtain ⟨limits, -⟩ := limit_of_cancelled flagging ran cancelled
        rw [if_pos settled, ← limits] at h
        have done := progress_of_runWatched? flagging ran
        have room := part.machine.cycles.toNat_lt
        have size : UInt64.size = 2 ^ 64 := rfl
        have less : 2 * (UInt64.size - part.machine.cycles.toNat) <
            2 * (UInt64.size - s.1.cycles.toNat) + s.2.cancelled.toNat := by
          have grows := done.grows
          obtain raised | moved := done.moves settled
          · simp only [raised, Bool.toNat_true]
            omega
          · omega
        obtain ⟨total, final, rest⟩ :=
          ih _ less (s := (part.machine, lowered id part.console)) h rfl
        exact ⟨_, _, .again ran cancelled rest⟩

/-- Nothing is lost by cancelling. A run that is taken up after each cancellation ends if and
only if the run that nobody cancels does, and in the same way: with the same machine, console and
notes, as many instructions in all and the same reason or error. -/
theorem runWatched?_resumed (budget : Option UInt64) (watch : Watcher τ) (m : Machine)
    (w : Cancellable κ) (notes : τ) :
    (∀ total final, Resumed con watch budget (m, w) notes total final →
      ∃ single, runWatched? base.beside budget (unraised watch) notes (m, lowered view w) =
        some single ∧ final.Alike view total single) ∧
      ∀ single, runWatched? base.beside budget (unraised watch) notes (m, lowered view w) =
          some single →
        ∃ total final, Resumed con watch budget (m, w) notes total final ∧
          final.Alike view total single := by
  have single_of {total : Nat} {final : Ending κ τ}
      (h : Resumed con watch budget (m, w) notes total final) :
      runWatched? base.beside budget (unraised watch) notes (m, lowered view w) =
        some (final.seen view m.cycles) := h.unraised_eq flagging m.cycles
  constructor
  · exact fun total final h => ⟨_, single_of h, h.alike flagging⟩
  · intro single ran
    obtain ⟨total, final, h⟩ := exists_resumed flagging (s := (m, w)) ran
    cases (single_of h).symm.trans ran
    exact ⟨total, final, h, h.alike flagging⟩

end Whole

/-- The flag is up before the first instruction, and again after it, which is the last of the
budget. The key that it reads is read once. -/
theorem runWatched?_resumed_of_raised_twice :
    let con := Console.Buffer.console.raising
    let w : Cancellable Console.Buffer := ⟨{ keys := [0x41] }, true⟩
    let m : Machine := { mem := Memory.set {} startAddress 0xF020 }
    let watch : Watcher Nat := fun _ n => (n + 1, true)
    con.Flagging id Console.Buffer.console ∧ ∃ m' total final,
      m'.regs.get .r0 = 0x41 ∧ Resumed con watch (some 1) (m, w) 0 total final ∧
      final.Alike id total (⟨m', ⟨{}, false⟩, 1, .ok ⟨1, .cycleLimit⟩⟩ : Ending _ _) := by
  intro con w m watch
  have flagging : con.Flagging id Console.Buffer.console :=
    Console.raising_flagging Console.Buffer.uninterrupted fun _ => rfl
  have calm := Console.beside_calm flagging.base_pump
  have hm : Memory.read Console.Buffer.console.beside m.regs.pc (m.mem, lowered id w) =
      .ok 0xF020 (m.mem, lowered id w) := by
    change Memory.read _ startAddress (m.mem, _) = _
    rw [Memory.read_of_ne (by decide), Memory.peek_set, if_pos rfl]
  have hd : Instruction.decode 0xF020 = .ok (.trap .getc) := by
    rw [Instruction.decode, show Opcode.ofWord 0xF020 = .trap from rfl]
    rfl
  obtain ⟨m', key, running, count, done⟩ :
      ∃ m', m'.regs.get .r0 = 0x41 ∧ m'.state = .running ∧ m'.cycles = 1 ∧
        step Console.Buffer.console.beside (m, lowered id w) =
          .ok (.trap .getc) (m', ⟨{}, false⟩) :=
    ⟨_, Registers.get_set_self _ _ _, rfl, rfl, step_of_execute rfl hm hd rfl⟩
  have ran : runWatched? Console.Buffer.console.beside (some 1) (unraised watch) 0
      (m, lowered id w) = some ⟨m', ⟨{}, false⟩, 1, .ok ⟨1, .cycleLimit⟩⟩ := by
    have reached : ((some 1).map (limitFrom 0)).any (· ≤ m'.cycles) = true := by
      rw [count]
      decide
    rw [runWatched?, watchFrom?_of_calm_step calm rfl _ rfl (by decide) (fun _ _ => rfl) done,
      if_neg (by simp [count]), watchFrom?_of_calm_limit calm rfl _ running reached]
    have spent : m'.cycles - m.cycles = 1 := by
      rw [count]
      exact UInt64.sub_zero _
    rw [spent]
    rfl
  obtain ⟨total, final, resumed, alike⟩ :=
    (runWatched?_resumed flagging (some 1) watch m w 0).2 _ ran
  exact ⟨flagging, m', total, final, key, resumed, alike⟩

end Machine

end LittleComputer
