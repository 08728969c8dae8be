import LittleComputer.Proofs.Machine.Budget
import LittleComputer.Proofs.Machine.CalmRun
import LittleComputer.Proofs.Machine.Course
import LittleComputer.Proofs.Machine.FailedStep

/-! Runs that nothing disturbs: on a console whose pump does nothing and that does not know of the
flag, with a watcher who only looks on. What happens in such a run is told without the watcher, who
makes a note of each instruction and changes nothing. -/
namespace LittleComputer.Machine
variable {κ τ : Type}

/-- A run of a machine on its console: what happens up to its end, what it leaves and how it ends.
It does not get to a count that starts over. -/
inductive Undisturbed (con : Console κ) (limit : Option UInt64) :
    Machine × κ → List Event → Machine × κ → Except Error StopReason → Prop
  | halted {m : Machine} {c : κ} (stopped : m.state ≠ .running) :
      Undisturbed con limit (m, c) [] (m, c) (.ok .halted)
  | limited {m : Machine} {c : κ} (running : m.state = .running)
      (reached : limit.any (· ≤ m.cycles) = true) :
      Undisturbed con limit (m, c) [] (m, c) (.ok .cycleLimit)
  | failed {m m' : Machine} {c c' : κ} {e : Error} (running : m.state = .running)
      (within : ¬ limit.any (· ≤ m.cycles) = true) (hs : step con (m, c) = .error e (m', c')) :
      Undisturbed con limit (m, c) [⟨m, .error e, m'⟩] (m', c') (.error e)
  | done {m m₁ : Machine} {c c₁ : κ} {i : Instruction Reg} {evs : List Event} {s' : Machine × κ}
      {result : Except Error StopReason} (running : m.state = .running)
      (within : ¬ limit.any (· ≤ m.cycles) = true) (hs : step con (m, c) = .ok i (m₁, c₁))
      (room : m₁.cycles ≠ 0) (rest : Undisturbed con limit (m₁, c₁) evs s' result) :
      Undisturbed con limit (m, c) (⟨m, .ok i, m₁⟩ :: evs) s' result

section Beside
variable {con : Console κ} {m m' : Machine} {c c' : κ}

/-- Beside a flag that is down a step does what it does alone, and the flag stays down. -/
theorem step_beside {i : Instruction Reg} (h : step con (m, c) = .ok i (m', c')) :
    step con.beside (m, ⟨c, false⟩) = .ok i (m', ⟨c', false⟩) := by
  have mirrors := con.mirrors_self.beside_lowered
  obtain ⟨⟨_, ⟨_, _⟩⟩, hs, rfl, rfl, rfl⟩ :=
    (step_parallel mirrors).of_ok (t := (m, ⟨c, false⟩)) ⟨rfl, rfl, rfl⟩ h
  exact hs

theorem step_beside_error {e : Error} (h : step con (m, c) = .error e (m', c')) :
    step con.beside (m, ⟨c, false⟩) = .error e (m', ⟨c', false⟩) := by
  have mirrors := con.mirrors_self.beside_lowered
  obtain ⟨e', ⟨_, ⟨_, _⟩⟩, hs, errors, rfl, rfl, rfl⟩ :=
    (step_parallel mirrors).of_error (t := (m, ⟨c, false⟩)) ⟨rfl, rfl, rfl⟩ h
  rw [errors.eq] at hs
  exact hs

end Beside

/-- What a watcher has noted who has looked at the machine before each of the events. -/
def noted (watch : Watcher τ) (notes : τ) (evs : List Event) : τ :=
  evs.foldl (fun notes e => (watch e.before notes).1) notes

/-- The end of a run as it is found by someone who watches it. -/
def seenEnd (start : UInt64) (notes : τ) (s : Machine × κ) (result : Except Error StopReason) :
    Ending κ τ :=
  ⟨s.1, ⟨s.2, false⟩, notes, result.map fun reason => ⟨s.1.cycles - start, reason⟩⟩

section
variable {con : Console κ} (idle : ∀ c, con.pump c = .ok () c) {watch : Watcher τ}
  (silent : Silent watch) {limit : Option UInt64} {s s' : Machine × κ}
  {evs : List Event} {result : Except Error StopReason}
include idle silent

theorem watchFrom?_of_undisturbed (h : Undisturbed con limit s evs s' result) (start : UInt64)
    (notes : τ) : watchFrom? con.beside start limit watch s.1 ⟨s.2, false⟩ notes =
      some (seenEnd start (noted watch notes evs) s' result) := by
  have calm := Console.beside_calm idle
  induction h generalizing notes with
  | @halted m c stopped =>
    exact watchFrom?_of_calm_stopped (s := (m, ⟨c, false⟩)) calm rfl start stopped
  | @limited m c running reached =>
    exact watchFrom?_of_calm_limit (s := (m, ⟨c, false⟩)) calm rfl start running reached
  | @failed m m' c c' e running within hs =>
    exact watchFrom?_of_calm_error (s := (m, ⟨c, false⟩)) calm rfl start running within silent
      (step_beside_error hs)
  | @done m m₁ c c₁ i evs s' result running within hs room _ ih =>
    have next : watchFrom? con.beside start limit watch m ⟨c, false⟩ notes =
        if m₁.cycles = 0 then none
        else watchFrom? con.beside start limit watch m₁ ⟨c₁, false⟩ (watch m notes).1 :=
      watchFrom?_of_calm_step (s := (m, ⟨c, false⟩)) calm rfl start running within silent
        (step_beside hs)
    exact next.trans ((if_neg room).trans (ih _))

/-- Every such run that comes to an end goes this way. -/
theorem exists_undisturbed {start : UInt64} {m : Machine} {c : κ} {notes : τ} {ending : Ending κ τ}
    (h : watchFrom? con.beside start limit watch m ⟨c, false⟩ notes = some ending) :
    ∃ evs s' result, Undisturbed con limit (m, c) evs s' result := by
  have pump : con.beside.pump ⟨c, false⟩ = .ok () ⟨c, false⟩ :=
    (Console.beside_calm idle).pump _ rfl
  generalize hw : (⟨c, false⟩ : Cancellable κ) = w at h pump
  fun_induction watchFrom? con.beside start limit watch m w notes generalizing c with
  | case1 m w notes result w' stop =>
    obtain ⟨-, ⟨stopped, -⟩ | ⟨-, raised, -⟩ | ⟨running, -, reached, -⟩⟩ :=
      (checkpoint_eq_stop pump).1 stop
    · exact ⟨_, _, _, .halted stopped⟩
    · subst hw
      cases raised
    · exact ⟨_, _, _, .limited running reached⟩
  | case2 => cases h
  | case3 m w notes w₁ go notes₁ cancels look i m' w' hs room ih =>
    subst hw
    obtain ⟨running, -, within, rfl⟩ := (checkpoint_eq_go pump).1 go
    obtain rfl : cancels = false := (congrArg Prod.snd look).symm.trans (silent m notes)
    cases alone : step con (m, c) with
    | error e s => cases (step_beside_error alone).symm.trans hs
    | ok j s =>
      cases (step_beside alone).symm.trans hs
      obtain ⟨evs, s', result, rest⟩ := ih rfl h ((Console.beside_calm idle).pump _ rfl)
      exact ⟨_, s', result, .done running within alone room rest⟩
  | case4 m w notes w₁ go notes₁ cancels look e m' w' hs =>
    subst hw
    obtain ⟨running, -, within, rfl⟩ := (checkpoint_eq_go pump).1 go
    obtain rfl : cancels = false := (congrArg Prod.snd look).symm.trans (silent m notes)
    cases alone : step con (m, c) with
    | error e s => exact ⟨_, _, _, .failed running within alone⟩
    | ok j s => cases (step_beside alone).symm.trans hs

/-- What happens in it is what the watched loop goes through. -/
theorem Undisturbed.trace (h : Undisturbed con limit s evs s' result) (start : UInt64)
    (notes : τ) :
    (Loop.watched con.beside start limit watch).Trace s.1 ⟨s.2, false⟩ notes evs s'.1 true := by
  have pump (c : κ) : con.beside.pump ⟨c, false⟩ = .ok () ⟨c, false⟩ :=
    (Console.beside_calm idle).pump _ rfl
  have next {m : Machine} (c : κ) (running : m.state = .running)
      (within : ¬ limit.any (· ≤ m.cycles) = true) (notes : τ) :
      (Loop.watched con.beside start limit watch).next? m ⟨c, false⟩ notes =
        some (⟨c, false⟩, (watch m notes).1) := by
    have go : checkpoint con.beside (m.cycles - start) limit m ⟨c, false⟩ = .go ⟨c, false⟩ :=
      (checkpoint_eq_go (pump c)).2 ⟨running, rfl, within, rfl⟩
    simp only [Loop.watched, go, silent m notes]
  induction h generalizing notes with
  | @halted m c stopped =>
    have stop : checkpoint con.beside (m.cycles - start) limit m ⟨c, false⟩ =
        .stop (.ok .halted) ⟨c, false⟩ :=
      (checkpoint_eq_stop (pump c)).2 ⟨rfl, .inl ⟨stopped, rfl⟩⟩
    exact .left (by simp only [Loop.watched, stop])
  | @limited m c running reached =>
    have stop : checkpoint con.beside (m.cycles - start) limit m ⟨c, false⟩ =
        .stop (.ok .cycleLimit) ⟨c, false⟩ :=
      (checkpoint_eq_stop (pump c)).2 ⟨rfl, .inr (.inr ⟨running, rfl, reached, rfl⟩)⟩
    exact .left (by simp only [Loop.watched, stop])
  | failed running within hs => exact .failed (next _ running within notes) (step_beside_error hs)
  | done running within hs _ _ ih =>
    exact .done (next _ running within notes) (step_beside hs) (ih _)

end

theorem completed_cons (e : Event) (evs : List Event) :
    completed (e :: evs) = (if e.result.isOk then 1 else 0) + completed evs := by
  rw [completed, List.countP_cons, Nat.add_comm]
  rfl

section
variable {con : Console κ} {limit : Option UInt64} {s s' : Machine × κ} {evs : List Event}
  {result : Except Error StopReason} (h : Undisturbed con limit s evs s' result)
include h

theorem Undisturbed.course : Course con s evs s' := by
  induction h with
  | halted | limited => exact .nil
  | failed _ _ hs => exact .failed hs .nil
  | done _ _ hs _ _ ih => exact .done hs ih

/-- Each completed instruction is counted, and no other. -/
theorem Undisturbed.cycles_eq : s'.1.cycles.toNat = s.1.cycles.toNat + completed evs := by
  induction h with
  | halted | limited => rfl
  | @failed m m' c c' e _ _ hs =>
    have kept : m'.cycles = m.cycles := cycles_of_step_error hs
    rw [kept]
    rfl
  | @done m m₁ c c₁ i evs s' result _ _ hs room _ ih =>
    have counted : m₁.cycles = m.cycles + 1 := cycles_of_step hs
    have one : m₁.cycles.toNat = m.cycles.toNat + 1 := by
      rw [counted] at room ⊢
      exact toNat_add_one_of_ne room
    rw [ih, one, completed_cons]
    simp only [Except.isOk, Except.toBool, if_true]
    omega

/-- Only the last instruction may have failed, and then the run ends with its error. -/
theorem Undisturbed.length_eq : evs.length = completed evs + if result.isOk then 0 else 1 := by
  induction h with
  | halted | limited => rfl
  | failed => rfl
  | done _ _ _ _ _ ih =>
    rw [List.length_cons, ih, completed_cons]
    simp only [Except.isOk, Except.toBool, if_true]
    omega

theorem Undisturbed.last_of_error {before after : List Event} {e : Event} {cause : Error}
    (split : evs = before ++ e :: after) (failed : e.result = .error cause) :
    after = [] ∧ result = .error cause := by
  induction h generalizing before with
  | halted | limited => cases before <;> cases split
  | failed =>
    cases before with
    | nil =>
      cases split
      cases failed
      exact ⟨rfl, rfl⟩
    | cons first before => cases before <;> cases split
  | done _ _ _ _ _ ih =>
    cases before with
    | nil =>
      cases split
      cases failed
    | cons first before =>
      cases split
      exact ih rfl

/-- What leads to an instruction of the run, and that it is executed then. -/
theorem Undisturbed.moment {before after : List Event} {e : Event}
    (split : evs = before ++ e :: after) :
    e.before.state = .running ∧ ∃ c c', Course con s before (e.before, c) ∧
      Course con (e.before, c) [e] (e.after, c') := by
  induction h generalizing before with
  | halted | limited => cases before <;> cases split
  | failed running _ hs =>
    cases before with
    | nil =>
      cases split
      exact ⟨running, _, _, .nil, .failed hs .nil⟩
    | cons first before => cases before <;> cases split
  | done running _ hs _ _ ih =>
    cases before with
    | nil =>
      cases split
      exact ⟨running, _, _, .nil, .done hs .nil⟩
    | cons first before =>
      cases split
      obtain ⟨running', c, c', earlier, now⟩ := ih rfl
      exact ⟨running', c, c', .done hs earlier, now⟩

/-- A run does not go over its limit. -/
theorem Undisturbed.le {max : UInt64} (limited : limit = some max) (start : s.1.cycles ≤ max) :
    s'.1.cycles ≤ max := by
  induction h with
  | halted | limited => exact start
  | @failed m m' c c' e _ _ hs =>
    have kept : m'.cycles = m.cycles := cycles_of_step_error hs
    rw [kept]
    exact start
  | @done m m₁ c c₁ i evs s' result _ within hs _ _ ih =>
    have counted : m₁.cycles = m.cycles + 1 := cycles_of_step hs
    have below : m.cycles < max := by
      rw [limited] at within
      simpa using within
    apply ih
    rw [counted, UInt64.le_iff_toNat_le, toNat_add_one_of_lt below]
    exact UInt64.lt_iff_toNat_lt.1 below

/-- The end of a run shows in the machine that it leaves. -/
inductive EndedAs (limit : Option UInt64) (m : Machine) : Except Error StopReason → Prop
  | halted (state : m.state = .halted) : EndedAs limit m (.ok .halted)
  | limited (running : m.state = .running) (reached : limit.any (· ≤ m.cycles) = true) :
      EndedAs limit m (.ok .cycleLimit)
  | faulted (pc word : Word) (cause : DecodeError) (state : m.state = .faulted) :
      EndedAs limit m (.error (.fault pc word cause))
  | failed (cause : Console.Error) (running : m.state = .running)
      (within : ¬ limit.any (· ≤ m.cycles) = true) : EndedAs limit m (.error (.console cause))

theorem Undisturbed.endedAs (start : s.1.state ≠ .faulted) : EndedAs limit s'.1 result := by
  induction h with
  | @halted m c stopped =>
    cases state : m.state with
    | running => exact absurd state stopped
    | halted => exact .halted state
    | faulted => exact absurd state start
  | limited running reached => exact .limited running reached
  | @failed m m' c c' e running within hs =>
    have kept : m'.cycles = m.cycles := cycles_of_step_error hs
    rw [← kept] at within
    cases e with
    | console cause => exact .failed cause (step_eq_error hs).footprint.state within
    | fault pc word cause =>
      exact .faulted pc word cause (((lawful_of_error hs).faults running).2 ⟨pc, word, cause, rfl⟩)
    | notRunning state =>
      cases step_eq_error hs with
      | stopped stopped => exact absurd running stopped
  | done running _ hs _ _ ih =>
    apply ih
    intro faulted
    obtain ⟨pc, word, cause, failed⟩ := ((lawful_of_ok hs).faults running).1 faulted
    cases failed

end

theorem limitFrom_zero (budget : Option UInt64) : budget.map (limitFrom 0) = budget := by
  cases budget with
  | none => rfl
  | some max => simp [limitFrom]

/-- The run of a machine that has not executed anything yet. -/
theorem runWatched?_iff_undisturbed {con : Console κ} (idle : ∀ c, con.pump c = .ok () c)
    {watch : Watcher τ} (silent : Silent watch) {m : Machine} (fresh : m.cycles = 0)
    {budget : Option UInt64} {notes : τ} {c : κ} {ending : Ending κ τ} :
    runWatched? con.beside budget watch notes (m, ⟨c, false⟩) = some ending ↔
      ∃ evs s' result, Undisturbed con budget (m, c) evs s' result ∧
        ending = seenEnd 0 (noted watch notes evs) s' result := by
  rw [runWatched?, fresh, limitFrom_zero]
  constructor
  · intro ran
    obtain ⟨evs, s', result, run⟩ := exists_undisturbed idle silent ran
    have seen := watchFrom?_of_undisturbed idle silent run 0 notes
    exact ⟨evs, s', result, run, Option.some.inj (ran.symm.trans seen)⟩
  · rintro ⟨evs, s', result, run, rfl⟩
    exact watchFrom?_of_undisturbed idle silent run 0 notes

end LittleComputer.Machine
