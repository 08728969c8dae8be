import LittleComputer.Console.Buffer
import LittleComputer.Proofs.Console.Journal
import LittleComputer.Proofs.Machine.Correspondence
import LittleComputer.Proofs.Machine.FailedStep

/-! The word stored at the keyboard status does not matter. A program that looks there gets the
answer of a poll, which replaces what was stored, so two machines that differ in nothing else do
the same. Only the routines that print a string look at memory without polling. -/
namespace LittleComputer
variable {σ α ε : Type} {con : Console σ}

/-- Two things related by `P`, each beside the same console. -/
def Alongside {μ : Type} (P : μ → μ → Prop) (s t : μ × σ) : Prop := P s.1 t.1 ∧ s.2 = t.2

/-- The same words everywhere but at the keyboard status. -/
def Memory.SameElsewhere (mem mem' : Memory) : Prop :=
  ∀ a, a ≠ keyStatus → mem.peek a = mem'.peek a

namespace Memory.SameElsewhere
variable {mem mem' : Memory}

theorem set (h : mem.SameElsewhere mem') (a v : Word) :
    (mem.set a v).SameElsewhere (mem'.set a v) := by
  intro b hb
  rw [peek_set, peek_set, h b hb]

theorem latch (h : mem.SameElsewhere mem') (key : Option Byte) :
    (mem.latch key).SameElsewhere (mem'.latch key) := by
  cases key with
  | none => exact h.set _ _
  | some key => exact (h.set _ _).set _ _

end Memory.SameElsewhere

/-- A read brings the same word from both memories, and leaves them as different as they were. -/
theorem Memory.read_alongside (con : Console σ) (a : Word) :
    Parallel Eq (Alongside Memory.SameElsewhere) (Memory.read con a) (Memory.read con a) := by
  rintro ⟨mem, c⟩ ⟨mem', _⟩ ⟨same, rfl⟩
  by_cases ha : a = keyStatus
  · subst ha
    cases polled : con.pollKey c with
    | ok key c' =>
      rw [read_status_of_ok polled, read_status_of_ok polled]
      exact .ok _ ⟨same.latch key, rfl⟩
    | error e c' =>
      simp only [read, beq_self_eq_true, if_true, polled]
      exact .error rfl ⟨same, rfl⟩
  · rw [read_of_ne ha, read_of_ne ha, same a ha]
    exact .ok _ ⟨same, rfl⟩

/-- The routines that do not print a string from memory do not look at it. -/
theorem Trap.run_of_unstrung {v : TrapVector} (puts : v ≠ .puts) (putsp : v ≠ .putsp)
    (con : Console σ) (mem mem' : Memory) : run con mem v = run con mem' v := by
  cases v with
  | getc | out | prompt | halt => rfl
  | puts => exact absurd rfl puts
  | putsp => exact absurd rfl putsp

namespace Machine

/-- Two machines that agree in all but perhaps the word stored at the keyboard status. -/
structure Alike (m m' : Machine) : Prop where
  regs : m.regs = m'.regs
  state : m.state = m'.state
  cycles : m.cycles = m'.cycles
  memory : ∀ a, a ≠ 0xFE00 → m.mem.peek a = m'.mem.peek a

theorem load_alongside (con : Console σ) (a : Word) :
    Parallel Eq (Alongside Alike) (load con a) (load con a) := by
  rintro ⟨m, c⟩ ⟨m', _⟩ ⟨alike, rfl⟩
  have read := Memory.read_alongside con a (m.mem, c) (m'.mem, c) ⟨alike.memory, rfl⟩
  simp only [load]
  generalize Memory.read con a (m.mem, c) = r, Memory.read con a (m'.mem, c) = r' at read
  cases read with
  | ok v left => exact .ok v ⟨{ alike with memory := left.1 }, left.2⟩
  | error same left => exact .error same ⟨{ alike with memory := left.1 }, left.2⟩

theorem lockstep_alike (con : Console σ) : Lockstep Eq con con (Alongside Alike) where
  regs states := states.1.regs
  state states := states.1.state
  onRegs states f := ⟨{ states.1 with regs := congrArg f states.1.regs }, states.2⟩
  store states a v :=
    ⟨{ states.1 with memory := Memory.SameElsewhere.set states.1.memory a v }, states.2⟩
  enter states _ := ⟨{ states.1 with state := rfl }, states.2⟩
  count states := ⟨{ states.1 with cycles := congrArg (· + 1) states.1.cycles }, states.2⟩
  load := load_alongside con

theorem serve_alongside {v : TrapVector} (puts : v ≠ .puts) (putsp : v ≠ .putsp)
    (con : Console σ) : Parallel Eq (Alongside Alike) (serve con v) (serve con v) := by
  rintro ⟨m, c⟩ ⟨m', _⟩ ⟨alike, rfl⟩
  have same : Trap.run con m.mem v (m.regs, c) = Trap.run con m'.mem v (m'.regs, c) := by
    rw [Trap.run_of_unstrung puts putsp con m.mem m'.mem, alike.regs]
  simp only [serve, same]
  cases Trap.run con m'.mem v (m'.regs, c) with
  | ok o s => exact .ok o ⟨{ alike with regs := rfl }, rfl⟩
  | error e s => exact .error rfl ⟨{ alike with regs := rfl }, rfl⟩

/-- An instruction other than a call of a routine that prints a string does the same. -/
theorem execute_alongside {i : Instruction Reg} (puts : i ≠ .trap .puts) (putsp : i ≠ .trap .putsp)
    (con : Console σ) : Parallel Eq (Alongside Alike) (execute con i) (execute con i) := by
  refine (lockstep_alike con).execute ?_
  rintro v rfl
  exact serve_alongside (fun h => puts (h ▸ rfl)) (fun h => putsp (h ▸ rfl)) con

/-- A step at which the machine executes a routine that prints a string, be it to the end or not. -/
def PrintsString (con : Console σ) (s : Machine × σ) : Prop :=
  s.1.state = .running ∧ ∃ v c, (v = .puts ∨ v = .putsp) ∧ Fetches con s.1 s.2 (.trap v) c

private theorem Alike.fetched {m m' : Machine} {mem mem' : Memory} (h : Alike m m')
    (memory : mem.SameElsewhere mem') : Alike (m.fetched mem) (m'.fetched mem') :=
  { h with regs := congrArg Registers.advance h.regs, memory := memory }

section
variable {m m' : Machine} {c : σ} (alike : Alike m m') (running : m.state = .running)
include alike running

private theorem step_alongside_of_fetch {w : Word} {mem mem' : Memory} {c₁ : σ}
    (hm : Memory.read con m.regs.pc (m.mem, c) = .ok w (mem, c₁))
    (hm' : Memory.read con m'.regs.pc (m'.mem, c) = .ok w (mem', c₁))
    (memory : mem.SameElsewhere mem')
    (unstrung : ∀ v, v = .puts ∨ v = .putsp → Instruction.decode w ≠ .ok (.trap v)) :
    Matches Eq (Alongside Alike) (step con (m, c)) (step con (m', c)) := by
  have running' : m'.state = .running := alike.state ▸ running
  have fetched := alike.fetched memory
  cases hd : Instruction.decode w with
  | error cause =>
    rw [step_of_decode_error running hm hd, step_of_decode_error running' hm' hd, alike.regs]
    exact .error rfl ⟨{ fetched with state := rfl }, rfl⟩
  | ok i =>
    have other (v : TrapVector) (strung : v = .puts ∨ v = .putsp) : i ≠ .trap v := by
      rintro rfl
      exact unstrung v strung hd
    have executed := execute_alongside (other .puts (.inl rfl)) (other .putsp (.inr rfl)) con
    have machines : Alongside Alike (m.fetched mem, c₁) (m'.fetched mem', c₁) := ⟨fetched, rfl⟩
    cases hx : execute con i (m.fetched mem, c₁) with
    | error e s =>
      obtain ⟨_, t, hx', rfl, left⟩ := executed.of_error machines hx
      rw [step_of_execute_error running hm hd hx, step_of_execute_error running' hm' hd hx']
      exact .error rfl left
    | ok u s =>
      obtain ⟨t, hx', left⟩ := executed.of_ok machines hx
      rw [step_of_execute running hm hd hx, step_of_execute running' hm' hd hx']
      exact .ok i ⟨{ left.1 with cycles := congrArg (· + 1) left.1.cycles }, left.2⟩

private theorem step_alongside_of_running (quiet : ¬ PrintsString con (m, c)) :
    Matches Eq (Alongside Alike) (step con (m, c)) (step con (m', c)) := by
  have memories : Alongside Memory.SameElsewhere (m.mem, c) (m'.mem, c) := ⟨alike.memory, rfl⟩
  have read := Memory.read_alongside con m.regs.pc
  cases hm : Memory.read con m.regs.pc (m.mem, c) with
  | error e s =>
    obtain ⟨_, t, hm', rfl, left⟩ := read.of_error memories hm
    rw [alike.regs] at hm'
    rw [step_of_fetch_error running hm, step_of_fetch_error (alike.state ▸ running) hm']
    exact .error rfl ⟨{ alike with memory := left.1 }, left.2⟩
  | ok w s =>
    obtain ⟨mem, c₁⟩ := s
    obtain ⟨⟨mem', _⟩, hm', memory, rfl⟩ := read.of_ok memories hm
    rw [alike.regs] at hm'
    refine step_alongside_of_fetch alike running hm hm' memory fun v strung hd => ?_
    exact quiet ⟨running, v, c₁, strung, w, mem, hm, hd⟩

end

/-- A step that prints no string does the same on both machines. -/
theorem step_alongside {s t : Machine × σ} (states : Alongside Alike s t)
    (quiet : ¬ PrintsString con s) : Matches Eq (Alongside Alike) (step con s) (step con t) := by
  obtain ⟨m, c⟩ := s
  obtain ⟨m', _⟩ := t
  obtain ⟨alike, rfl⟩ := states
  by_cases running : m.state = .running
  · exact step_alongside_of_running alike running quiet
  · have stopped : m'.state ≠ .running := alike.state ▸ running
    rw [step_of_stopped running, step_of_stopped stopped, alike.state]
    exact .error rfl ⟨alike, rfl⟩

/-- The machine and the console after a number of steps. One that fails is followed by the next
like any other. -/
def after (con : Console σ) : Nat → Machine × σ → Machine × σ
  | 0, s => s
  | n + 1, s => after con n (stateLeft (step con s))

theorem after_alongside {s t : Machine × σ} (states : Alongside Alike s t) (n : Nat)
    (quiet : ∀ k < n, ¬ PrintsString con (after con k s)) :
    Alongside Alike (after con n s) (after con n t) := by
  induction n generalizing s t with
  | zero => exact states
  | succ n ih =>
    have stepped := step_alongside states (quiet 0 n.succ_pos)
    exact ih stepped.states fun k hk => quiet (k + 1) (Nat.succ_lt_succ hk)

/-- On consoles that mirror each other the machine goes through the same steps. -/
theorem after_parallel {τ : Type} {E : Console.Error → Console.Error → Prop} {R : σ → τ → Prop}
    {con' : Console τ} (h : con.Mirrors E R con') {s : Machine × σ} {t : Machine × τ}
    (states : Beside R s t) (n : Nat) : Beside R (after con n s) (after con' n t) := by
  induction n generalizing s t with
  | zero => exact states
  | succ n ih => exact ih (step_parallel h s t states).states

theorem PrintsString.of_mirror {τ : Type} {E : Console.Error → Console.Error → Prop}
    {R : σ → τ → Prop} {con' : Console τ} (h : con.Mirrors E R con') {s : Machine × σ}
    {t : Machine × τ} (states : Beside R s t) (prints : PrintsString con' t) :
    PrintsString con s := by
  obtain ⟨m, c⟩ := s
  obtain ⟨_, d⟩ := t
  obtain ⟨rfl, consoles⟩ := states
  obtain ⟨running, v, d₁, strung, w, mem, hm, hd⟩ := prints
  have read := Memory.read_parallel h m.regs.pc (m.mem, c) (m.mem, d) ⟨rfl, consoles⟩
  rw [hm] at read
  cases hm' : Memory.read con m.regs.pc (m.mem, c) with
  | error e s =>
    rw [hm'] at read
    cases read
  | ok w' s =>
    rw [hm'] at read
    cases read
    exact ⟨running, v, s.2, strung, w, s.1, hm', hd⟩

section
variable {κ : Type}

/-- The calls that a number of steps make, in order, with the errors of those that fail. -/
def callsAfter (con : Console (Cancellable κ)) (n : Nat) (s : Machine × Cancellable κ) :
    List Console.Entry :=
  (after con.journaled n (s.1, s.2.noted [])).2.calls

/-- To keep a journal makes no difference to the steps. -/
theorem after_journaled (con : Console (Cancellable κ)) (n : Nat) (s : Machine × Cancellable κ) :
    Beside Cancellable.SameConsole (after con n s)
      (after con.journaled n (s.1, s.2.noted [])) :=
  after_parallel con.journaled_mirrors ⟨rfl, s.2.noted_sameConsole []⟩ n

private theorem callsAfter_alongside {con : Console (Cancellable κ)}
    {s t : Machine × Cancellable κ} (states : Alongside Alike s t) {n : Nat}
    (quiet : ∀ k < n, ¬ PrintsString con (after con k s)) :
    callsAfter con n s = callsAfter con n t := by
  have noted : Alongside Alike (s.1, s.2.noted []) (t.1, t.2.noted []) :=
    ⟨states.1, by rw [states.2]⟩
  have same := after_alongside noted n fun k hk prints =>
    quiet k hk (prints.of_mirror con.journaled_mirrors (after_journaled con k s))
  rw [callsAfter, callsAfter, same.2]

/-- Two machines that differ at most in the word stored at the keyboard status, on the same
console: as long as no string is printed, each step returns the same instruction or error on both,
the same calls are made in the same order, and the machines differ in nothing else afterwards. -/
theorem status_hidden (con : Console (Cancellable κ)) {m m' : Machine} (alike : Alike m m')
    (w : Cancellable κ) (n : Nat) (quiet : ∀ k < n, ¬ PrintsString con (after con k (m, w))) :
    (∀ k < n, Matches Eq (Alongside Alike) (step con (after con k (m, w)))
      (step con (after con k (m', w)))) ∧
    callsAfter con n (m, w) = callsAfter con n (m', w) ∧
    Alongside Alike (after con n (m, w)) (after con n (m', w)) := by
  have start : Alongside Alike (m, w) (m', w) := ⟨alike, rfl⟩
  refine ⟨fun k hk => ?_, callsAfter_alongside start quiet, after_alongside start n quiet⟩
  have reached := after_alongside start k fun j hj => quiet j (Nat.lt_trans hj hk)
  exact step_alongside reached (quiet k hk)

/-- Two machines that fetch from the status, where one holds nothing and the other a halt. -/
theorem status_hidden_of_fetch :
    let con : Console (Cancellable Console.Buffer) := Console.Buffer.console.beside
    let m : Machine := { regs := { Registers.initial with pc := 0xFE00 } }
    let m' : Machine := { m with mem := m.mem.set 0xFE00 0xF025 }
    m.mem.peek 0xFE00 ≠ m'.mem.peek 0xFE00 ∧
      Matches Eq (Alongside Alike) (step con (m, ⟨{}, false⟩)) (step con (m', ⟨{}, false⟩)) ∧
      callsAfter con 1 (m, ⟨{}, false⟩) = callsAfter con 1 (m', ⟨{}, false⟩) := by
  intro con m m'
  have alike : Alike m m' := by
    refine ⟨rfl, rfl, rfl, fun a ha => ?_⟩
    rw [Memory.peek_set, if_neg ha.symm]
  have quiet : ∀ k < 1, ¬ PrintsString con (after con k (m, ⟨{}, false⟩)) := by
    rintro k hk ⟨-, v, c, -, word, mem, hm, hd⟩
    obtain rfl := Nat.lt_one_iff.1 hk
    rcases Memory.read_eq_ok hm with ⟨elsewhere, -⟩ | ⟨-, key, -, rfl, -⟩
    · exact elsewhere rfl
    · cases (decode_status_eq_ok hd).2
  obtain ⟨steps, calls, -⟩ := status_hidden con alike ⟨{}, false⟩ 1 quiet
  refine ⟨?_, steps 0 Nat.one_pos, calls⟩
  rw [Memory.peek_empty, Memory.peek_set, if_pos rfl]
  decide

end

end Machine

end LittleComputer
