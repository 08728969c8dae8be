import LittleComputer.Console.Journal
import LittleComputer.Proofs.Console.Correspondence

/-! What a journal tells. Writing down the calls of a console changes nothing in what they do. An
action that follows a script makes its calls in this order, up to the first that fails. -/
namespace LittleComputer
variable {κ ε σ τ μ α β : Type}

/-- The error of a result that has failed. -/
def failure? : EStateM.Result ε σ α → Option ε
  | .ok _ _ => none
  | .error e _ => some e

/-- The same result beside another state. -/
def withState (f : σ → τ) : EStateM.Result ε σ α → EStateM.Result ε τ α
  | .ok a s => .ok a (f s)
  | .error e s => .error e (f s)

theorem failure?_withState (f : σ → τ) (r : EStateM.Result ε σ α) :
    failure? (withState f r) = failure? r := by
  cases r <;> rfl

theorem stateLeft_withState (f : σ → τ) (r : EStateM.Result ε σ α) :
    stateLeft (withState f r) = f (stateLeft r) := by
  cases r <;> rfl

theorem failure?_eq_none {r : EStateM.Result ε σ α} : failure? r = none ↔ ∃ a s, r = .ok a s := by
  cases r <;> simp [failure?]

theorem failure?_eq_some {r : EStateM.Result ε σ α} {e : ε} :
    failure? r = some e ↔ ∃ s, r = .error e s := by
  cases r <;> simp [failure?]

namespace Cancellable

/-- The calls in a journal, in the order in which they were made. -/
def calls (v : Cancellable (Console.Journaled κ)) : List Console.Entry := v.console.entries.reverse

/-- The console beside a journal in which these calls are written down. -/
def noted (w : Cancellable κ) (calls : List Console.Entry) : Cancellable (Console.Journaled κ) :=
  ⟨⟨w.console, calls.reverse⟩, w.cancelled⟩

@[simp]
theorem calls_noted (w : Cancellable κ) (calls : List Console.Entry) :
    (w.noted calls).calls = calls := List.reverse_reverse calls

/-- The same console and the same flag, whatever is written down beside them. -/
abbrev SameConsole : Cancellable κ → Cancellable (Console.Journaled κ) → Prop :=
  SameFlag fun c j => j.console = c

theorem noted_sameConsole (w : Cancellable κ) (calls : List Console.Entry) :
    SameConsole w (w.noted calls) := ⟨rfl, rfl⟩

theorem SameConsole.eq_noted {w : Cancellable κ} {v : Cancellable (Console.Journaled κ)}
    (h : SameConsole w v) : v = w.noted v.calls := by
  obtain ⟨c, flag⟩ := w
  obtain ⟨⟨c', entries⟩, flag'⟩ := v
  obtain rfl : flag = flag' := h.1
  obtain rfl : c' = c := h.2
  simp [noted, calls]

/-- Results that match differ in nothing but what is written down. -/
theorem eq_withState_noted {E : ε → ε → Prop} (same : ∀ {e e'}, E e e' → e' = e)
    {r : EStateM.Result ε (μ × Cancellable κ) α}
    {r' : EStateM.Result ε (μ × Cancellable (Console.Journaled κ)) α}
    (h : Matches E (Beside SameConsole) r r') :
    r' = withState (fun s => (s.1, s.2.noted (stateLeft r').2.calls)) r := by
  have beside {s : μ × Cancellable κ} {t : μ × Cancellable (Console.Journaled κ)}
      (states : Beside SameConsole s t) : t = (s.1, s.2.noted t.2.calls) := by
    obtain ⟨m, v⟩ := t
    obtain ⟨rfl, states⟩ := states
    exact congrArg _ states.eq_noted
  cases h with
  | ok a states => exact congrArg _ (beside states)
  | error errors states =>
    rw [same errors]
    exact congrArg _ (beside states)

end Cancellable

namespace Console

/-- A console does the same with a journal beside it. -/
theorem journaled_mirrors (con : Console (Cancellable κ)) :
    con.Mirrors Eq Cancellable.SameConsole con.journaled := by
  have noting {α : Type} (call : Call) (x : EStateM Error (Cancellable κ) α) :
      Parallel Eq Cancellable.SameConsole x (Journaled.noting call x) := by
    rintro ⟨c, flag⟩ ⟨⟨c', entries⟩, flag'⟩ same
    obtain rfl : flag = flag' := same.1
    obtain rfl : c' = c := same.2
    simp only [Journaled.noting]
    cases x ⟨c', flag⟩ with
    | ok a w => exact .ok a ⟨rfl, rfl⟩
    | error e w => exact .error rfl ⟨rfl, rfl⟩
  exact ⟨noting _ _, noting _ _, fun _ => noting _ _, noting _ _, noting _ _⟩

/-- A call adds itself to the journal, with the error that it fails with. -/
theorem calls_noting (call : Call) (x : EStateM Error (Cancellable κ) α)
    (v : Cancellable (Journaled κ)) :
    (stateLeft (Journaled.noting call x v)).calls =
      v.calls ++ [⟨call, failure? (Journaled.noting call x v)⟩] := by
  obtain ⟨⟨c, entries⟩, flag⟩ := v
  simp only [Journaled.noting]
  cases x ⟨c, flag⟩ <;> simp [stateLeft, failure?, Cancellable.calls]

/-- All calls succeeded, but for the last one if there is a failure. -/
inductive EndIn : List Entry → Option Error → Prop
  | smooth {calls : List Entry} (all : ∀ e ∈ calls, e.failure = none) : EndIn calls none
  | failing {earlier : List Entry} (call : Call) (cause : Error)
      (before : ∀ e ∈ earlier, e.failure = none) :
      EndIn (earlier ++ [⟨call, some cause⟩]) (some cause)

theorem EndIn.nil : EndIn [] none := .smooth (List.forall_mem_nil _)

theorem EndIn.append {calls calls' : List Entry} {failure : Option Error} (h : EndIn calls none)
    (h' : EndIn calls' failure) : EndIn (calls ++ calls') failure := by
  cases h with
  | smooth all =>
    cases h' with
    | smooth all' => exact .smooth (List.forall_mem_append.2 ⟨all, all'⟩)
    | failing call cause before =>
      rw [← List.append_assoc]
      exact .failing call cause (List.forall_mem_append.2 ⟨all, before⟩)

def Call.asksForKey : Call → Bool
  | .pollKey | .readKey => true
  | .writeByte _ | .flush | .pump => false

/-- Calls that one instruction may make: at most one is for a key, and none is a pump. -/
structure OneKey (calls : List Call) : Prop where
  keys : calls.countP Call.asksForKey ≤ 1
  unpumped : Call.pump ∉ calls

theorem OneKey.of_prefix {calls script : List Call} (h : OneKey script) (le : calls <+: script) :
    OneKey calls where
  keys := Nat.le_trans le.sublist.countP_le h.keys
  unpumped := fun pumped => h.unpumped (le.subset pumped)

/-- Calls made one after another as in a script, up to the first that fails. -/
inductive Plays : List Call → List Entry → Option Error → Prop
  | done : Plays [] [] none
  | failed (call : Call) (rest : List Call) (e : Error) :
      Plays (call :: rest) [⟨call, some e⟩] (some e)
  | next (call : Call) {rest : List Call} {calls : List Entry} {failure : Option Error}
      (h : Plays rest calls failure) : Plays (call :: rest) (⟨call, none⟩ :: calls) failure

namespace Plays
variable {script rest : List Call} {calls calls' : List Entry} {failure : Option Error} {e : Error}

theorem append (h : Plays script calls none) (h' : Plays rest calls' failure) :
    Plays (script ++ rest) (calls ++ calls') failure := by
  generalize hn : (none : Option Error) = before at h
  induction h with
  | done => exact h'
  | failed => cases hn
  | next call _ ih => exact .next call (ih hn)

/-- What comes after a failure is not played. -/
theorem append_failed (h : Plays script calls (some e)) (rest : List Call) :
    Plays (script ++ rest) calls (some e) := by
  generalize hs : some e = failure at h
  induction h with
  | done => cases hs
  | failed call _ e' => exact .failed call _ e'
  | next call _ ih => exact .next call (ih hs)

theorem endIn (h : Plays script calls failure) : EndIn calls failure := by
  induction h with
  | done => exact .nil
  | failed call _ e =>
    rw [← List.nil_append [_]]
    exact .failing call e (List.forall_mem_nil _)
  | next call _ ih =>
    have first : EndIn [⟨call, none⟩] none := .smooth (by simp)
    exact first.append ih

/-- Nothing has failed exactly if all of the script has been played. -/
theorem completed_iff (h : Plays script calls failure) :
    failure = none ↔ calls = script.map fun call => ⟨call, none⟩ := by
  induction h with
  | done => simp
  | failed => simp
  | next call _ ih => simpa using ih

/-- The failure is that of the call which has failed. -/
theorem failed_iff (h : Plays script calls failure) :
    failure = some e ↔ ∃ entry ∈ calls, entry.failure = some e := by
  induction h with
  | done => simp
  | failed => simp
  | next call _ ih => simpa using ih

theorem isPrefix (h : Plays script calls failure) : calls.map Entry.call <+: script := by
  induction h with
  | done => exact List.prefix_refl []
  | failed call rest => exact ⟨rest, rfl⟩
  | next call _ ih => exact List.cons_prefix_cons.2 ⟨rfl, ih⟩

end Plays

/-- The calls that an action adds to a journal are those of a script, up to the one that it fails
with. -/
def Follows (journal : σ → List Entry) (x : EStateM Error σ α) (s : σ) (script : List Call) :
    Prop :=
  ∃ new, journal (stateLeft (x s)) = journal s ++ new ∧ Plays script new (failure? (x s))

namespace Follows
variable {journal : σ → List Entry} {s : σ} {script : List Call}

theorem silent {x : EStateM Error σ α} (calm : failure? (x s) = none)
    (same : journal (stateLeft (x s)) = journal s) : Follows journal x s [] := by
  refine ⟨[], by rw [same, List.append_nil], ?_⟩
  rw [calm]
  exact .done

theorem pure (a : α) : Follows journal (pure a) s [] := silent rfl rfl

/-- The rest of a script may depend on what has come of its beginning. If nothing comes of it then
the rest is not played, whatever it is. -/
theorem bind_given [Nonempty α] {x : EStateM Error σ α} {f : α → EStateM Error σ β}
    (rest : α → List Call) (h : Follows journal x s script)
    (hf : ∀ a s', x s = .ok a s' → Follows journal (f a) s' (rest a)) :
    ∃ a, (∀ a' s', x s = .ok a' s' → a' = a) ∧ Follows journal (x >>= f) s (script ++ rest a) := by
  obtain ⟨new, journaled, plays⟩ := h
  cases hx : x s with
  | error e s' =>
    rw [hx] at journaled plays
    obtain ⟨a⟩ := ‹Nonempty α›
    refine ⟨a, nofun, new, ?_⟩
    rw [bind_of_error hx]
    exact ⟨journaled, plays.append_failed _⟩
  | ok a s' =>
    rw [hx] at journaled plays
    obtain ⟨new', journaled', plays'⟩ := hf a s' hx
    refine ⟨a, ?_, new ++ new', ?_⟩
    · intro a' s'' given
      cases given
      rfl
    · rw [bind_of_ok hx, journaled', ← List.append_assoc]
      exact ⟨congrArg (· ++ new') journaled, plays.append plays'⟩

theorem bind [Nonempty α] {x : EStateM Error σ α} {f : α → EStateM Error σ β} {rest : List Call}
    (h : Follows journal x s script)
    (hf : ∀ a s', x s = .ok a s' → Follows journal (f a) s' rest) :
    Follows journal (x >>= f) s (script ++ rest) := by
  obtain ⟨-, -, follows⟩ := h.bind_given (fun _ => rest) hf
  exact follows

end Follows

section
variable (con : Console (Cancellable κ)) (v : Cancellable (Journaled κ))

theorem noting_follows (call : Call) (x : EStateM Error (Cancellable κ) α) :
    Follows Cancellable.calls (Journaled.noting call x) v [call] := by
  refine ⟨_, calls_noting call x v, ?_⟩
  cases failure? (Journaled.noting call x v) with
  | none => exact .next call .done
  | some e => exact .failed call [] e

theorem writeBytes_follows (bytes : List Byte) :
    Follows Cancellable.calls (con.journaled.writeBytes bytes) v (bytes.map .writeByte) := by
  induction bytes generalizing v with
  | nil => exact .pure ()
  | cons b bytes ih => exact (noting_follows v (.writeByte b) _).bind fun _ v' _ => ih v'

end

end Console

end LittleComputer
