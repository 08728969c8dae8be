import LittleComputer.Console.Basic
import LittleComputer.Proofs.Sequence

/-! Two consoles side by side. Each call made on one has its counterpart on the other: both give
the same value or both fail, with errors that match, and they leave states that match. What
holds of single calls holds of every program made of them. -/

/-- Results that are related stay so if both are used in related ways. -/
theorem Option.Rel.map {α α' β β' : Type} {P : α → β → Prop} {Q : α' → β' → Prop} {f : α → α'}
    {g : β → β'} {x : Option α} {y : Option β} (h : x.Rel P y)
    (used : ∀ a b, P a b → Q (f a) (g b)) : (x.map f).Rel Q (y.map g) := by
  cases h with
  | none => exact .none
  | some related => exact .some (used _ _ related)

namespace LittleComputer
variable {ε ε' σ τ μ κ κ' α β : Type}

/-- Two results match: the same value or errors related by `E`, and states related by `R`. -/
inductive Matches (E : ε → ε' → Prop) (R : σ → τ → Prop) :
    EStateM.Result ε σ α → EStateM.Result ε' τ α → Prop
  | ok (a : α) {s : σ} {t : τ} (states : R s t) : Matches E R (.ok a s) (.ok a t)
  | error {e : ε} {e' : ε'} {s : σ} {t : τ} (errors : E e e') (states : R s t) :
      Matches E R (.error e s) (.error e' t)

/-- Two actions are parallel if they take matching states to matching results. -/
def Parallel (E : ε → ε' → Prop) (R : σ → τ → Prop) (x : EStateM ε σ α) (y : EStateM ε' τ α) :
    Prop :=
  ∀ s t, R s t → Matches E R (x s) (y t)

/-- Two outcomes match: the same value, or errors related by `E`. -/
inductive SameOutcome (E : ε → ε' → Prop) : Except ε α → Except ε' α → Prop
  | ok (a : α) : SameOutcome E (.ok a) (.ok a)
  | error {e : ε} {e' : ε'} (errors : E e e') : SameOutcome E (.error e) (.error e')

theorem SameOutcome.map {E : ε → ε' → Prop} {x : Except ε α} {y : Except ε' α} (f : α → β)
    (h : SameOutcome E x y) : SameOutcome E (x.map f) (y.map f) := by
  cases h with
  | ok a => exact .ok (f a)
  | error errors => exact .error errors

/-- Something that is the same on both sides, next to matching states. -/
def Beside (R : σ → τ → Prop) (s : μ × σ) (t : μ × τ) : Prop := s.1 = t.1 ∧ R s.2 t.2

namespace Parallel
variable {E : ε → ε' → Prop} {R : σ → τ → Prop}

section
variable {x : EStateM ε σ α} {y : EStateM ε' τ α} {s s' : σ} {t : τ} (h : Parallel E R x y)
  (states : R s t)
include h states

theorem of_ok {a : α} (hx : x s = .ok a s') : ∃ t', y t = .ok a t' ∧ R s' t' := by
  have matched := h s t states
  rw [hx] at matched
  generalize y t = r at matched
  cases matched with
  | ok _ states' => exact ⟨_, rfl, states'⟩

theorem of_error {e : ε} (hx : x s = .error e s') :
    ∃ e' t', y t = .error e' t' ∧ E e e' ∧ R s' t' := by
  have matched := h s t states
  rw [hx] at matched
  generalize y t = r at matched
  cases matched with
  | error errors states' => exact ⟨_, _, rfl, errors, states'⟩

end

theorem pure (a : α) : Parallel E R (pure a) (pure a) := fun _ _ states => .ok a states

theorem throw {e : ε} {e' : ε'} (errors : E e e') :
    Parallel E R (throw e : EStateM ε σ α) (throw e' : EStateM ε' τ α) :=
  fun _ _ states => .error errors states

theorem bind {x : EStateM ε σ α} {y : EStateM ε' τ α} {f : α → EStateM ε σ β}
    {g : α → EStateM ε' τ β} (hx : Parallel E R x y) (hf : ∀ a, Parallel E R (f a) (g a)) :
    Parallel E R (x >>= f) (y >>= g) := by
  intro s t states
  have first := hx s t states
  simp only [Bind.bind, EStateM.bind]
  generalize x s = r, y t = r' at first
  cases first with
  | ok a states' => exact hf a _ _ states'
  | error errors states' => exact .error errors states'

theorem adaptExcept {ε₁ ε₁' : Type} {E₁ : ε₁ → ε₁' → Prop} {x : EStateM ε σ α}
    {y : EStateM ε' τ α} {f : ε → ε₁} {g : ε' → ε₁'} (hx : Parallel E R x y)
    (hf : ∀ e e', E e e' → E₁ (f e) (g e')) :
    Parallel E₁ R (x.adaptExcept f) (y.adaptExcept g) := by
  intro s t states
  have first := hx s t states
  simp only [EStateM.adaptExcept]
  generalize x s = r, y t = r' at first
  cases first with
  | ok a states' => exact .ok a states'
  | error errors states' => exact .error (hf _ _ errors) states'

end Parallel

/-- The state that a result leaves. -/
def stateLeft : EStateM.Result ε σ α → σ
  | .ok _ s => s
  | .error _ s => s

theorem Matches.states {E : ε → ε' → Prop} {R : σ → τ → Prop} {r : EStateM.Result ε σ α}
    {r' : EStateM.Result ε' τ α} (h : Matches E R r r') : R (stateLeft r) (stateLeft r') := by
  cases h with
  | ok _ states | error _ states => exact states

/-- An action does not lead out of `P`, even if it fails. -/
def Stays (P : σ → Prop) (x : EStateM ε σ α) : Prop := ∀ s, P s → P (stateLeft (x s))

/-- Staying in `P` is being parallel to oneself there. -/
theorem Stays.parallel {P : σ → Prop} {x : EStateM ε σ α} (h : Stays P x) :
    Parallel Eq (fun s t => s = t ∧ P s) x x := by
  rintro s _ ⟨rfl, hs⟩
  have next := h s hs
  generalize x s = r at next
  cases r with
  | ok a s' => exact .ok a ⟨rfl, next⟩
  | error e s' => exact .error rfl ⟨rfl, next⟩

theorem Stays.pure {P : σ → Prop} (a : α) : Stays P (Pure.pure a : EStateM ε σ α) := fun _ hs => hs

theorem Stays.bind {P : σ → Prop} {x : EStateM ε σ α} {f : α → EStateM ε σ β} (hx : Stays P x)
    (hf : ∀ a, Stays P (f a)) : Stays P (x >>= f) := by
  intro s hs
  have first := hx s hs
  simp only [Bind.bind, EStateM.bind]
  generalize x s = r at first
  cases r with
  | ok a s' => exact hf a s' first
  | error e s' => exact first

namespace Console

/-- Every call of one console is parallel to the same call of the other. -/
structure Mirrors (E : Error → Error → Prop) (R : σ → τ → Prop) (con : Console σ)
    (con' : Console τ) : Prop where
  pollKey : Parallel E R con.pollKey con'.pollKey
  readKey : Parallel E R con.readKey con'.readKey
  writeByte : ∀ b, Parallel E R (con.writeByte b) (con'.writeByte b)
  flush : Parallel E R con.flush con'.flush
  pump : Parallel E R con.pump con'.pump

theorem Mirrors.writeBytes {E : Error → Error → Prop} {R : σ → τ → Prop} {con : Console σ}
    {con' : Console τ} (h : con.Mirrors E R con') (bytes : List Byte) :
    Parallel E R (con.writeBytes bytes) (con'.writeBytes bytes) := by
  induction bytes with
  | nil => exact .pure ()
  | cons b bytes ih => exact .bind (h.writeByte b) fun _ => ih

/-- No call leads out of `P`. -/
structure Keeps (con : Console σ) (P : σ → Prop) : Prop where
  pollKey : Stays P con.pollKey
  readKey : Stays P con.readKey
  writeByte : ∀ b, Stays P (con.writeByte b)
  flush : Stays P con.flush
  pump : Stays P con.pump

theorem Keeps.mirrors {con : Console σ} {P : σ → Prop} (h : con.Keeps P) :
    con.Mirrors Eq (fun s t => s = t ∧ P s) con where
  pollKey := h.pollKey.parallel
  readKey := h.readKey.parallel
  writeByte b := (h.writeByte b).parallel
  flush := h.flush.parallel
  pump := h.pump.parallel

end Console

namespace Cancellable

/-- Matching consoles next to flags that are equal. -/
def SameFlag (R : κ → κ' → Prop) (w : Cancellable κ) (w' : Cancellable κ') : Prop :=
  w.cancelled = w'.cancelled ∧ R w.console w'.console

theorem lift_parallel {E : Console.Error → Console.Error → Prop} {R : κ → κ' → Prop}
    {x : EStateM Console.Error κ α} {y : EStateM Console.Error κ' α} (h : Parallel E R x y) :
    Parallel E (SameFlag R) (lift x) (lift y) := by
  rintro ⟨c, flag⟩ ⟨d, _⟩ ⟨rfl, states⟩
  have called := h c d states
  simp only [lift]
  generalize x c = r, y d = r' at called
  cases called with
  | ok a states' => exact .ok a ⟨rfl, states'⟩
  | error errors states' => exact .error errors ⟨rfl, states'⟩

/-- What is parallel to an action is parallel to it beside a flag that stays down. -/
theorem parallel_lift {E : Console.Error → Console.Error → Prop} {R : σ → κ → Prop}
    {x : EStateM Console.Error σ α} {y : EStateM Console.Error κ α} (h : Parallel E R x y) :
    Parallel E (fun s w => R s w.console ∧ w.cancelled = false) x (lift y) := by
  rintro s ⟨c, flag⟩ ⟨states, lowered⟩
  have called := h s c states
  simp only [lift]
  generalize x s = r, y c = r' at called
  cases called with
  | ok a states' => exact .ok a ⟨states', lowered⟩
  | error errors states' => exact .error errors ⟨states', lowered⟩

end Cancellable

/-- What mirrors a console mirrors it beside a flag that stays down. -/
theorem Console.Mirrors.beside_lowered {E : Error → Error → Prop} {R : σ → κ → Prop}
    {con : Console σ} {con' : Console κ} (h : con.Mirrors E R con') :
    con.Mirrors E (fun s w => R s w.console ∧ w.cancelled = false) con'.beside where
  pollKey := Cancellable.parallel_lift h.pollKey
  readKey := Cancellable.parallel_lift h.readKey
  writeByte b := Cancellable.parallel_lift (h.writeByte b)
  flush := Cancellable.parallel_lift h.flush
  pump := Cancellable.parallel_lift h.pump

/-- Consoles that do not know of the flag mirror each other beside it. -/
theorem Console.Mirrors.beside {E : Error → Error → Prop} {R : κ → κ' → Prop} {con : Console κ}
    {con' : Console κ'} (h : con.Mirrors E R con') :
    con.beside.Mirrors E (Cancellable.SameFlag R) con'.beside where
  pollKey := Cancellable.lift_parallel h.pollKey
  readKey := Cancellable.lift_parallel h.readKey
  writeByte b := Cancellable.lift_parallel (h.writeByte b)
  flush := Cancellable.lift_parallel h.flush
  pump := Cancellable.lift_parallel h.pump

end LittleComputer
