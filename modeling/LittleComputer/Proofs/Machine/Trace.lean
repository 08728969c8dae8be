import LittleComputer.Machine.Run

/-! What happens in a call: the instructions one after another, each with its result. Every entry
point is a loop around the execution of single instructions, and the trace of a call is what its
loop has done so far. -/
namespace LittleComputer.Machine
variable {σ κ τ : Type}

/-- One instruction in the life of a machine: the machine before and after it, and its result. -/
structure Event where
  before : Machine
  result : Except Error (Instruction Reg)
  after : Machine

/-- The machine that an action leaves, whether or not it fails. -/
def leaves {α : Type} : EStateM.Result Error (Machine × σ) α → Machine
  | .ok _ s => s.1
  | .error _ s => s.1

/-- A loop around the execution of single instructions. Before each it decides whether to go on,
and with which console and what to remember. -/
structure Loop (σ τ : Type) where
  console : Console σ
  next? : Machine → σ → τ → Option (σ × τ)

/-- The loop has seen the events and is at this machine now, or has returned with it. -/
inductive Loop.Trace (l : Loop σ τ) : Machine → σ → τ → List Event → Machine → Bool → Prop
  | here {m : Machine} {c : σ} {t : τ} : Trace l m c t [] m false
  | left {m : Machine} {c : σ} {t : τ} (h : l.next? m c t = none) : Trace l m c t [] m true
  | failed {m m' : Machine} {c c₁ c' : σ} {t t₁ : τ} {e : Error}
      (h : l.next? m c t = some (c₁, t₁)) (hs : step l.console (m, c₁) = .error e (m', c')) :
      Trace l m c t [⟨m, .error e, m'⟩] m' true
  | done {m m₁ m' : Machine} {c c₁ c₂ : σ} {t t₁ : τ} {i : Instruction Reg} {evs : List Event}
      {returned : Bool} (h : l.next? m c t = some (c₁, t₁))
      (hs : step l.console (m, c₁) = .ok i (m₁, c₂)) (rest : Trace l m₁ c₂ t₁ evs m' returned) :
      Trace l m c t (⟨m, .ok i, m₁⟩ :: evs) m' returned

namespace Loop
variable {l : Loop σ τ} {m m' : Machine} {c : σ} {t : τ} {evs : List Event} {returned : Bool}

/-- There is one way for a loop to return. -/
theorem Trace.unique {evs' : List Event} {m'' : Machine} (h : l.Trace m c t evs m' true)
    (h' : l.Trace m c t evs' m'' true) : evs' = evs ∧ m'' = m' := by
  generalize hr : true = returned at h
  induction h generalizing evs' m'' with
  | here => cases hr
  | left h =>
    cases h' with
    | left => exact ⟨rfl, rfl⟩
    | failed h₁ | done h₁ => cases h.symm.trans h₁
  | failed h hs =>
    cases h' with
    | left h₁ => cases h.symm.trans h₁
    | failed h₁ hs₁ =>
      cases h.symm.trans h₁
      cases hs.symm.trans hs₁
      exact ⟨rfl, rfl⟩
    | done h₁ hs₁ =>
      cases h.symm.trans h₁
      cases hs.symm.trans hs₁
  | done h hs _ ih =>
    cases h' with
    | left h₁ => cases h.symm.trans h₁
    | failed h₁ hs₁ =>
      cases h.symm.trans h₁
      cases hs.symm.trans hs₁
    | done h₁ hs₁ rest =>
      cases h.symm.trans h₁
      cases hs.symm.trans hs₁
      obtain ⟨rfl, rfl⟩ := ih rest hr
      exact ⟨rfl, rfl⟩

/-- A single instruction. -/
def once (con : Console σ) : Loop σ Bool :=
  ⟨con, fun _ c first => if first then some (c, false) else none⟩

def whileRunning (con : Console σ) : Loop σ Unit :=
  ⟨con, fun m c _ => if m.isRunning then some (c, ()) else none⟩

def below (con : Console σ) (limit : UInt64) : Loop σ Unit :=
  ⟨con, fun m c _ => if m.isRunning ∧ m.cycles < limit then some (c, ()) else none⟩

def watched (con : Console (Cancellable κ)) (start : UInt64) (limit : Option UInt64)
    (watch : Watcher τ) : Loop (Cancellable κ) τ :=
  ⟨con, fun m w notes =>
    match checkpoint con (m.cycles - start) limit m w with
    | .stop _ _ => none
    | .go w => some ({ w with cancelled := (watch m notes).2 }, (watch m notes).1)⟩

theorem trace_of_step (con : Console σ) (s : Machine × σ) :
    ∃ evs, (once con).Trace s.1 s.2 true evs (leaves (step con s)) true := by
  cases hs : step con s with
  | ok i s' => exact ⟨_, .done rfl hs (.left rfl)⟩
  | error e s' => exact ⟨_, .failed rfl hs⟩

theorem trace_of_runTo (con : Console σ) (limit : UInt64) (s : Machine × σ) :
    ∃ evs, (below con limit).Trace s.1 s.2 () evs (leaves (runTo con limit s)) true := by
  fun_induction runTo con limit s with
  | case1 s go i s' hs ih =>
    obtain ⟨evs, ih⟩ := ih
    exact ⟨_, .done (if_pos go) hs ih⟩
  | case2 s go e s' hs => exact ⟨_, .failed (if_pos go) hs⟩
  | case3 s stop => exact ⟨_, .left (if_neg stop)⟩

theorem trace_of_runOut? (con : Console σ) (s : Machine × σ)
    {r : EStateM.Result Error (Machine × σ) Unit} (h : runOut? con s = some r) :
    ∃ evs, (whileRunning con).Trace s.1 s.2 () evs (leaves r) true := by
  fun_induction runOut? con s with
  | case1 => cases h
  | case2 s go i s' hs _ ih =>
    obtain ⟨evs, ih⟩ := ih h
    exact ⟨_, .done (if_pos go) hs ih⟩
  | case3 s go e s' hs =>
    cases h
    exact ⟨_, .failed (if_pos go) hs⟩
  | case4 s stop =>
    cases h
    exact ⟨_, .left (if_neg stop)⟩

theorem trace_of_watchFrom? (con : Console (Cancellable κ)) (start : UInt64)
    (limit : Option UInt64) (watch : Watcher τ) (m : Machine) (w : Cancellable κ) (notes : τ)
    {ending : Ending κ τ} (h : watchFrom? con start limit watch m w notes = some ending) :
    ∃ evs, (watched con start limit watch).Trace m w notes evs ending.machine true := by
  fun_induction watchFrom? con start limit watch m w notes with
  | case1 m w notes result w' hc =>
    cases h
    exact ⟨_, .left (by simp only [watched, hc])⟩
  | case2 => cases h
  | case3 m w notes w₁ hc notes₁ cancels hw i m' w' hs _ ih =>
    obtain ⟨evs, ih⟩ := ih h
    exact ⟨_, .done (by simp only [watched, hc, hw]) hs ih⟩
  | case4 m w notes w₁ hc notes₁ cancels hw e m' w' hs =>
    have next : (watched con start limit watch).next? m w notes =
        some ({ w₁ with cancelled := cancels }, notes₁) := by simp only [watched, hc, hw]
    cases h
    exact ⟨_, .failed next hs⟩

end Loop

end LittleComputer.Machine
