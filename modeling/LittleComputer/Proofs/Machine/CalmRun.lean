import LittleComputer.Proofs.Machine.Correspondence

/-! Runs that nobody cancels: the flag is down, neither the console nor the watcher raises it, and
the pump does nothing. Before each instruction there are then three questions left, whether the
machine has stopped, whether the limit is reached and whether the instruction fails. -/
namespace LittleComputer

/-- On the states in `P` the flag is down and the pump does nothing, and no call leads out of
them. -/
structure Console.Calm {κ : Type} (con : Console (Cancellable κ)) (P : Cancellable κ → Prop) :
    Prop where
  keeps : con.Keeps P
  lowered : ∀ w, P w → w.cancelled = false
  pump : ∀ w, P w → con.pump w = .ok () w

/-- A console that does not know of the flag is calm beside it, if its pump does nothing. -/
theorem Console.beside_calm {κ : Type} {con : Console κ} (idle : ∀ c, con.pump c = .ok () c) :
    con.beside.Calm (·.cancelled = false) := by
  have stays {α : Type} (x : EStateM Error κ α) :
      Stays (fun w : Cancellable κ => w.cancelled = false) (Cancellable.lift x) := by
    rintro ⟨c, flag⟩ lowered
    simp only [Cancellable.lift]
    cases x c <;> exact lowered
  constructor
  · exact ⟨stays _, stays _, fun _ => stays _, stays _, stays _⟩
  · exact fun _ => id
  · rintro ⟨c, flag⟩ -
    simp [Console.beside, Cancellable.lift, idle]

namespace Machine
variable {κ τ : Type}

/-- A watcher who never asks for a run to be cancelled. -/
def Silent (watch : Watcher τ) : Prop := ∀ m notes, (watch m notes).2 = false

variable {con : Console (Cancellable κ)} {P : Cancellable κ → Prop} (calm : con.Calm P)
  {watch : Watcher τ} {s s' : Machine × Cancellable κ} (hs : P s.2) (start : UInt64)
  {limit : Option UInt64} {notes : τ}
include calm hs

theorem checkpoint_of_calm (executed : UInt64) (limit : Option UInt64) :
    checkpoint con executed limit s.1 s.2 =
      if s.1.state = .running then
        if limit.any (· ≤ s.1.cycles) then .stop (.ok .cycleLimit) s.2 else .go s.2
      else .stop (.ok .halted) s.2 := by
  simp [checkpoint_of_idle (calm.pump s.2 hs), calm.lowered s.2 hs]

theorem watchFrom?_of_calm_stopped (h : s.1.state ≠ .running) :
    watchFrom? con start limit watch s.1 s.2 notes =
      some ⟨s.1, s.2, notes, .ok ⟨s.1.cycles - start, .halted⟩⟩ :=
  watchFrom?_of_stop ((checkpoint_of_calm calm hs _ _).trans (if_neg h))

variable (running : s.1.state = .running)
include running

theorem watchFrom?_of_calm_limit (reached : limit.any (· ≤ s.1.cycles) = true) :
    watchFrom? con start limit watch s.1 s.2 notes =
      some ⟨s.1, s.2, notes, .ok ⟨s.1.cycles - start, .cycleLimit⟩⟩ := by
  have stop : checkpoint con (s.1.cycles - start) limit s.1 s.2 = .stop (.ok .cycleLimit) s.2 := by
    rw [checkpoint_of_calm calm hs, if_pos running, if_pos reached]
  exact watchFrom?_of_stop stop

variable (within : ¬ limit.any (· ≤ s.1.cycles) = true) (silent : Silent watch)
include within

private theorem checkpoint_of_calm_within :
    checkpoint con (s.1.cycles - start) limit s.1 s.2 = .go s.2 := by
  rw [checkpoint_of_calm calm hs, if_pos running, if_neg within]

include silent

theorem watchFrom?_of_calm_step {i : Instruction Reg} (h : step con s = .ok i s') :
    watchFrom? con start limit watch s.1 s.2 notes =
      if s'.1.cycles = 0 then none
      else watchFrom? con start limit watch s'.1 s'.2 (watch s.1 notes).1 := by
  have go := checkpoint_of_calm_within calm hs start running within
  have done : step con (s.1, { s.2 with cancelled := (watch s.1 notes).2 }) = .ok i s' := by
    rw [silent, ← calm.lowered _ hs]
    exact h
  exact watchFrom?_of_go_of_step go done

theorem watchFrom?_of_calm_error {e : Error} (h : step con s = .error e s') :
    watchFrom? con start limit watch s.1 s.2 notes =
      some ⟨s'.1, s'.2, (watch s.1 notes).1, .error e⟩ := by
  have go := checkpoint_of_calm_within calm hs start running within
  have failed : step con (s.1, { s.2 with cancelled := (watch s.1 notes).2 }) = .error e s' := by
    rw [silent, ← calm.lowered _ hs]
    exact h
  have lowered : s'.2.cancelled = false := by
    have kept := step_stays calm.keeps s hs
    rw [h] at kept
    exact calm.lowered _ kept
  rw [watchFrom?_of_go_of_step_error go failed, lowered, endedBy_of_lowered]
  rfl

end Machine

end LittleComputer
