import LittleComputer.Proofs.Machine.Correspondence
import LittleComputer.Proofs.Machine.LifeCycle
import LittleComputer.Proofs.Machine.Loops

/-! What a machine goes through with its console: one instruction after another, and after one that
fails the next is executed on what it has left. Every call of an entry point is a part of such a
course, whether or not it has returned. -/
namespace LittleComputer

/-- A console that does not know of the flag does beside it what it does alone. -/
theorem Console.beside_mirrors {κ : Type} (con : Console κ) :
    con.beside.Mirrors Eq (fun w c => w.console = c) con := by
  have lifted {α : Type} (x : EStateM Console.Error κ α) :
      Parallel Eq (fun (w : Cancellable κ) c => w.console = c) (Cancellable.lift x) x := by
    rintro ⟨c, flag⟩ _ rfl
    simp only [Cancellable.lift]
    cases x c with
    | ok a c' => exact .ok a rfl
    | error e c' => exact .error rfl rfl
  exact ⟨lifted _, lifted _, fun _ => lifted _, lifted _, lifted _⟩

theorem Console.mirrors_self {σ : Type} (con : Console σ) : con.Mirrors Eq Eq con := by
  have same {α : Type} (x : EStateM Console.Error σ α) : Parallel Eq Eq x x := by
    rintro c _ rfl
    cases x c with
    | ok a c' => exact .ok a rfl
    | error e c' => exact .error rfl rfl
  exact ⟨same _, same _, fun _ => same _, same _, same _⟩

namespace Machine
variable {σ ω τ : Type} {con : Console σ}

/-- A machine and its console have gone through these events. -/
inductive Course (con : Console σ) : Machine × σ → List Event → Machine × σ → Prop
  | nil {s : Machine × σ} : Course con s [] s
  | done {m m₁ : Machine} {c c₁ : σ} {i : Instruction Reg} {evs : List Event} {s' : Machine × σ}
      (h : step con (m, c) = .ok i (m₁, c₁)) (rest : Course con (m₁, c₁) evs s') :
      Course con (m, c) (⟨m, .ok i, m₁⟩ :: evs) s'
  | failed {m m₁ : Machine} {c c₁ : σ} {e : Error} {evs : List Event} {s' : Machine × σ}
      (h : step con (m, c) = .error e (m₁, c₁)) (rest : Course con (m₁, c₁) evs s') :
      Course con (m, c) (⟨m, .error e, m₁⟩ :: evs) s'

theorem Course.append {s s₁ s' : Machine × σ} {evs evs' : List Event} (h : Course con s evs s₁)
    (h' : Course con s₁ evs' s') : Course con s (evs ++ evs') s' := by
  induction h with
  | nil => exact h'
  | done h _ ih => exact .done h (ih h')
  | failed h _ ih => exact .failed h (ih h')

section Seen
variable {conω : Console ω} {view : ω → σ} (mirrors : conω.Mirrors Eq (fun w c => view w = c) con)
  {m m' : Machine} {w w' : ω}
include mirrors

/-- A step is seen as one on the other console. -/
theorem step_seen {i : Instruction Reg} (h : step conω (m, w) = .ok i (m', w')) :
    step con (m, view w) = .ok i (m', view w') := by
  obtain ⟨⟨_, _⟩, hs, rfl, rfl⟩ := (step_parallel mirrors).of_ok (t := (m, view w)) ⟨rfl, rfl⟩ h
  exact hs

theorem step_error_seen {e : Error} (h : step conω (m, w) = .error e (m', w')) :
    step con (m, view w) = .error e (m', view w') := by
  obtain ⟨e', ⟨_, _⟩, hs, errors, rfl, rfl⟩ :=
    (step_parallel mirrors).of_error (t := (m, view w)) ⟨rfl, rfl⟩ h
  rw [errors.eq] at hs
  exact hs

end Seen

/-- A loop goes through a course of the console that is seen in its own, if what it does between
two instructions is not seen. -/
theorem Loop.Trace.course {l : Loop ω τ} (view : ω → σ)
    (mirrors : l.console.Mirrors Eq (fun w c => view w = c) con)
    (unseen : ∀ {m w t w₁ t₁}, l.next? m w t = some (w₁, t₁) → view w₁ = view w)
    {m m' : Machine} {w : ω} {t : τ} {evs : List Event} {returned : Bool}
    (h : l.Trace m w t evs m' returned) : ∃ c', Course con (m, view w) evs (m', c') := by
  induction h with
  | here | left => exact ⟨_, .nil⟩
  | failed h hs =>
    rw [← unseen h]
    exact ⟨_, .failed (step_error_seen mirrors hs) .nil⟩
  | done h hs _ ih =>
    obtain ⟨c', rest⟩ := ih
    rw [← unseen h]
    exact ⟨c', .done (step_seen mirrors hs) rest⟩

theorem course_of_step (con : Console σ) (s : Machine × σ) :
    ∃ evs, Course con s evs (stateLeft (step con s)) := by
  cases hs : step con s with
  | ok i s' => exact ⟨_, .done hs .nil⟩
  | error e s' => exact ⟨_, .failed hs .nil⟩

private theorem stateLeft_counted (start : UInt64) (r : EStateM.Result Error (Machine × σ) Unit) :
    stateLeft (counted start r) = stateLeft r := by
  cases r <;> rfl

theorem course_of_runTo (con : Console σ) (limit : UInt64) (s : Machine × σ) :
    ∃ evs, Course con s evs (stateLeft (runTo con limit s)) := by
  fun_induction runTo con limit s with
  | case1 s go i s' hs ih =>
    obtain ⟨evs, ih⟩ := ih
    exact ⟨_, .done hs ih⟩
  | case2 s go e s' hs => exact ⟨_, .failed hs .nil⟩
  | case3 s stop => exact ⟨_, .nil⟩

theorem course_of_runOut? (con : Console σ) (s : Machine × σ)
    {r : EStateM.Result Error (Machine × σ) Unit} (h : runOut? con s = some r) :
    ∃ evs, Course con s evs (stateLeft r) := by
  fun_induction runOut? con s with
  | case1 => cases h
  | case2 s go i s' hs _ ih =>
    obtain ⟨evs, ih⟩ := ih h
    exact ⟨_, .done hs ih⟩
  | case3 s go e s' hs =>
    cases h
    exact ⟨_, .failed hs .nil⟩
  | case4 s stop =>
    cases h
    exact ⟨_, .nil⟩

section Idle
variable (idle : ∀ c, con.pump c = .ok () c)
include idle

private theorem beside_idle (w : Cancellable σ) : con.beside.pump w = .ok () w := by
  obtain ⟨c, cancelled⟩ := w
  simp [Console.beside, Cancellable.lift, idle]

theorem course_of_watchFrom? (start : UInt64) (limit : Option UInt64) (watch : Watcher τ)
    (m : Machine) (w : Cancellable σ) (notes : τ) {ending : Ending σ τ}
    (h : watchFrom? con.beside start limit watch m w notes = some ending) :
    ∃ evs, Course con (m, w.console) evs (ending.machine, ending.console.console) := by
  fun_induction watchFrom? con.beside start limit watch m w notes with
  | case1 m w notes result w' stop =>
    obtain ⟨rfl, -⟩ := (checkpoint_eq_stop (beside_idle idle w)).1 stop
    cases h
    exact ⟨_, .nil⟩
  | case2 => cases h
  | case3 m w notes w₁ go notes₁ cancels _ i m' w' hs _ ih =>
    obtain ⟨-, -, -, rfl⟩ := (checkpoint_eq_go (beside_idle idle w)).1 go
    obtain ⟨evs, rest⟩ := ih h
    have seen := step_seen con.beside_mirrors hs
    exact ⟨_, .done seen rest⟩
  | case4 m w notes w₁ go notes₁ cancels _ e m' w' hs =>
    obtain ⟨-, -, -, rfl⟩ := (checkpoint_eq_go (beside_idle idle w)).1 go
    have seen := step_error_seen con.beside_mirrors hs
    cases h
    exact ⟨_, .failed seen .nil⟩

private theorem course_of_watched (start : UInt64) (limit : Option UInt64) (watch : Watcher τ)
    {m m' : Machine} {w : Cancellable σ} {notes : τ} {evs : List Event} {returned : Bool}
    (h : (Loop.watched con.beside start limit watch).Trace m w notes evs m' returned) :
    ∃ c', Course con (m, w.console) evs (m', c') := by
  refine h.course Cancellable.console con.beside_mirrors ?_
  intro m w t w₁ t₁ next
  simp only [Loop.watched] at next
  split at next
  next => cases next
  next go =>
    obtain ⟨-, -, -, rfl⟩ := (checkpoint_eq_go (beside_idle idle w)).1 go
    cases next
    rfl

end Idle

/-- What may be asked of a machine with a console that does not know of the flag. -/
inductive Order : Type 1
  | step
  | run
  | runLimited (budget : UInt64)
  | runUntil (budget : Option UInt64) (cancelled : Bool)
  | runWatched {τ : Type} (budget : Option UInt64) (watch : Watcher τ) (notes : τ)
      (cancelled : Bool)

namespace Order

/-- The call that is made for an order. -/
def call (con : Console σ) (c : σ) : Order → Call
  | step => .step con c
  | run => .run con c
  | runLimited budget => .runLimited con budget c
  | runUntil budget cancelled => .runUntil con.beside budget ⟨c, cancelled⟩
  | runWatched budget watch notes cancelled =>
    .runWatched con.beside budget watch notes ⟨c, cancelled⟩

/-- The machine and the console that are left when the call returns. -/
def left? (con : Console σ) (s : Machine × σ) : Order → Option (Machine × σ)
  | step => some (stateLeft (Machine.step con s))
  | run => (run? con s).map stateLeft
  | runLimited budget => some (stateLeft (Machine.runLimited con budget s))
  | runUntil budget cancelled =>
    (runUntil? con.beside budget (s.1, ⟨s.2, cancelled⟩)).map fun ending =>
      (ending.machine, ending.console.console)
  | runWatched budget watch notes cancelled =>
    (runWatched? con.beside budget watch notes (s.1, ⟨s.2, cancelled⟩)).map fun ending =>
      (ending.machine, ending.console.console)

variable {order : Order} {s s' : Machine × σ} (idle : ∀ c, con.pump c = .ok () c)
include idle

theorem course_of_left? (h : order.left? con s = some s') : ∃ evs, Course con s evs s' := by
  cases order with
  | step =>
    cases h
    exact course_of_step con s
  | run =>
    simp only [left?, run?_eq, Option.map_map, Option.map_eq_some_iff, Function.comp_apply,
      stateLeft_counted] at h
    obtain ⟨r, hr, rfl⟩ := h
    exact course_of_runOut? con s hr
  | runLimited budget =>
    cases h
    rw [runLimited_eq, stateLeft_counted]
    exact course_of_runTo con _ s
  | runUntil budget cancelled =>
    obtain ⟨ending, he, rfl⟩ := Option.map_eq_some_iff.1 h
    exact course_of_watchFrom? idle _ _ _ _ _ _ he
  | runWatched budget watch notes cancelled =>
    obtain ⟨ending, he, rfl⟩ := Option.map_eq_some_iff.1 h
    exact course_of_watchFrom? idle _ _ _ _ _ _ he

theorem course_of_trace {evs : List Event} {m' : Machine} {returned : Bool}
    (h : (order.call con s.2).Trace s.1 evs m' returned) :
    ∃ c', Course con s evs (m', c') := by
  cases order with
  | step | run | runLimited =>
    refine Loop.Trace.course id con.mirrors_self ?_ h
    intro m c t c₁ t₁ next
    simp only [Loop.once, Loop.whileRunning, Loop.below] at next
    split at next
    · cases next
      rfl
    · cases next
  | runUntil => exact course_of_watched idle _ _ _ h
  | runWatched => exact course_of_watched idle _ _ _ h

end Order

end Machine

end LittleComputer
