import Mathlib.Data.List.Forall2
import LittleComputer.Proofs.Machine.Correspondence

/-! What is seen from outside: operations on a machine and on its console, one after another, and
what each of them gives. On consoles that mirror each other the transcripts match. -/
namespace LittleComputer.Machine
variable {σ τ κ ν α : Type}

/-- What may be asked of a machine and its console. -/
inductive Operation where
  | step
  | run
  | runLimited (budget : UInt64)
  /-- Someone may have asked to stop before the run begins. -/
  | runUntil (budget : Option UInt64) (cancelled : Bool)
  | pollKey
  | readKey
  | writeByte (b : Byte)
  | writeBytes (bytes : List Byte)
  | flush
  | pump

/-- What an operation gives if it does not fail. -/
inductive Answer where
  | instruction (i : Instruction Reg)
  | executed (n : UInt64)
  | summary (summary : Summary)
  | polled (key : Option Byte)
  | key (key : Byte)
  | done

/-- Do to the console what leaves the machine alone. -/
def onConsole (x : EStateM Console.Error σ α) : Action σ Error α :=
  fun (m, c) =>
    match x c with
    | .ok a c => .ok a (m, c)
    | .error e c => .error (.console e) (m, c)

/-- Give the value as an answer. -/
def answering (f : α → Answer) :
    EStateM.Result Error (Machine × σ) α → EStateM.Result Error (Machine × σ) Answer
  | .ok a s => .ok (f a) s
  | .error e s => .error e s

def Ending.answer (ending : Ending κ ν) : EStateM.Result Error (Machine × κ) Answer :=
  match ending.result with
  | .ok summary => .ok (.summary summary) (ending.machine, ending.console.console)
  | .error e => .error e (ending.machine, ending.console.console)

/-- The result of an operation, if it comes to an end. -/
def perform? (con : Console σ) (s : Machine × σ) :
    Operation → Option (EStateM.Result Error (Machine × σ) Answer)
  | .step => some (answering .instruction (step con s))
  | .run => (run? con s).map (answering .executed)
  | .runLimited budget => some (answering .executed (runLimited con budget s))
  | .runUntil budget cancelled =>
    (runUntil? con.beside budget (s.1, ⟨s.2, cancelled⟩)).map Ending.answer
  | .pollKey => some (answering .polled (onConsole con.pollKey s))
  | .readKey => some (answering .key (onConsole con.readKey s))
  | .writeByte b => some (answering (fun _ => .done) (onConsole (con.writeByte b) s))
  | .writeBytes bytes => some (answering (fun _ => .done) (onConsole (con.writeBytes bytes) s))
  | .flush => some (answering (fun _ => .done) (onConsole con.flush s))
  | .pump => some (answering (fun _ => .done) (onConsole con.pump s))

/-- The results of operations one after another, up to one that comes to no end. A failed one is
followed by the next like any other. -/
def transcript (con : Console σ) :
    List Operation → Machine × σ → List (EStateM.Result Error (Machine × σ) Answer)
  | [], _ => []
  | op :: ops, s =>
    match perform? con s op with
    | none => []
    | some r => r :: transcript con ops (stateLeft r)

theorem transcript_cons {con : Console σ} {s : Machine × σ} {op : Operation}
    {r : EStateM.Result Error (Machine × σ) Answer} (performed : perform? con s op = some r)
    (ops : List Operation) :
    transcript con (op :: ops) s = r :: transcript con ops (stateLeft r) := by
  simp only [transcript, performed]

variable {E : Console.Error → Console.Error → Prop} {R : σ → τ → Prop} {con : Console σ}
  {con' : Console τ}

theorem onConsole_parallel {x : EStateM Console.Error σ α} {y : EStateM Console.Error τ α}
    (h : Parallel E R x y) :
    Parallel (Error.Matches E) (Beside R) (onConsole x) (onConsole y) := by
  rintro ⟨m, c⟩ ⟨_, d⟩ ⟨rfl, states⟩
  have called := h c d states
  simp only [onConsole]
  generalize x c = r, y d = r' at called
  cases called with
  | ok a states' => exact .ok a ⟨rfl, states'⟩
  | error errors states' => exact .error (.console errors) ⟨rfl, states'⟩

theorem answering_matches (f : α → Answer) {r : EStateM.Result Error (Machine × σ) α}
    {r' : EStateM.Result Error (Machine × τ) α} (h : Matches (Error.Matches E) (Beside R) r r') :
    Matches (Error.Matches E) (Beside R) (answering f r) (answering f r') := by
  cases h with
  | ok a states => exact .ok (f a) states
  | error errors states => exact .error errors states

/-- Runs that give the same, told with what they leave. -/
theorem told_matches {result result' : Except Error Summary} {s : Machine × σ} {t : Machine × τ}
    (states : Beside R s t) :
    SameOutcome (Error.Matches E) result result' →
      Matches (Error.Matches E) (Beside R)
        (match result with
          | .ok summary => .ok (Answer.summary summary) s
          | .error e => .error e s)
        (match result' with
          | .ok summary => .ok (Answer.summary summary) t
          | .error e => .error e t) := by
  intro results
  cases results with
  | ok summary => exact .ok _ states
  | error errors => exact .error errors states

theorem answer_matches {R : κ → τ → Prop} {ending : Ending κ ν} {ending' : Ending τ ν}
    (h : ending.Matches E (Cancellable.SameFlag R) ending') :
    Matches (Error.Matches E) (Beside R) ending.answer ending'.answer :=
  told_matches ⟨h.machine, h.console.2⟩ h.result

section
variable (h : con.Mirrors E R con') {s : Machine × σ} {t : Machine × τ}
include h

/-- An operation comes to an end on both consoles or on neither, and gives the same. -/
theorem perform?_parallel
    (interruptions : ∀ e e', E e e' → (e.kind = .interrupted ↔ e'.kind = .interrupted))
    (states : Beside R s t) (op : Operation) :
    (perform? con s op).Rel (Matches (Error.Matches E) (Beside R)) (perform? con' t op) := by
  have call {α : Type} (f : α → Answer) {x : EStateM Console.Error σ α}
      {y : EStateM Console.Error τ α} (hx : Parallel E R x y) :
      (some (answering f (onConsole x s))).Rel (Matches (Error.Matches E) (Beside R))
        (some (answering f (onConsole y t))) :=
    .some (answering_matches f (onConsole_parallel hx s t states))
  cases op with
  | step => exact .some (answering_matches _ (step_parallel h s t states))
  | run => exact (run?_parallel h states).map fun _ _ => answering_matches _
  | runLimited budget => exact .some (answering_matches _ (runLimited_parallel h budget s t states))
  | runUntil budget cancelled =>
    have flagged : Beside (Cancellable.SameFlag R) (s.1, ⟨s.2, cancelled⟩)
        (t.1, ⟨t.2, cancelled⟩) := ⟨states.1, rfl, states.2⟩
    exact (runUntil?_parallel h.beside (fun _ _ => And.left) interruptions budget flagged).map
      fun _ _ => answer_matches
  | pollKey => exact call _ h.pollKey
  | readKey => exact call _ h.readKey
  | writeByte b => exact call _ (h.writeByte b)
  | writeBytes bytes => exact call _ (h.writeBytes bytes)
  | flush => exact call _ h.flush
  | pump => exact call _ h.pump

theorem transcript_parallel (kinds : ∀ e e', E e e' → e.kind = e'.kind) (states : Beside R s t)
    (ops : List Operation) :
    List.Forall₂ (Matches (Error.Matches E) (Beside R)) (transcript con ops s)
      (transcript con' ops t) := by
  have interruptions (e e' : Console.Error) (errors : E e e') :
      e.kind = .interrupted ↔ e'.kind = .interrupted := by rw [kinds e e' errors]
  induction ops generalizing s t with
  | nil => exact .nil
  | cons op ops ih =>
    have performed := perform?_parallel h interruptions states op
    simp only [transcript]
    generalize perform? con s op = r, perform? con' t op = r' at performed
    cases performed with
    | none => exact .nil
    | some matched => exact .cons matched (ih matched.states)

end

end LittleComputer.Machine
