import LittleComputer.Proofs.Console.Correspondence
import LittleComputer.Proofs.Machine.FailedStep
import LittleComputer.Proofs.Machine.Trace

/-! What an instruction does to memory: the words it obtains, one after another, and the word it
stores. Nothing else changes memory, and a word obtained does so only where the keyboard answers. -/
namespace LittleComputer.Machine
variable {σ ε α : Type}

/-- A word was obtained from an address while the console went from one state to another, or a value
was stored at an address. -/
inductive Access (σ : Type) where
  | obtained (address word : Word) (before after : σ)
  | stored (address value : Word)

/-- Obtain a word, and go on to the accesses that follow. There are none if the read fails. -/
def obtaining (con : Console σ) (a : Word) (s : Memory × σ)
    (next : Word → Memory × σ → List (Access σ)) : List (Access σ) :=
  match Memory.read con a s with
  | .ok w s' => .obtained a w s.2 s'.2 :: next w s'
  | .error _ _ => []

/-- The accesses of an instruction, with the program counter already past it. -/
def executing (con : Console σ) (m : Machine) (c : σ) : Instruction Reg → List (Access σ)
  | .ld _ offset => obtaining con (m.regs.pc + offset) (m.mem, c) fun _ _ => []
  | .ldi _ offset =>
    obtaining con (m.regs.pc + offset) (m.mem, c) fun a s => obtaining con a s fun _ _ => []
  | .ldr _ base offset => obtaining con (m.regs.get base + offset) (m.mem, c) fun _ _ => []
  | .st sr offset => [.stored (m.regs.pc + offset) (m.regs.get sr)]
  | .sti sr offset =>
    obtaining con (m.regs.pc + offset) (m.mem, c) fun a _ => [.stored a (m.regs.get sr)]
  | .str sr base offset => [.stored (m.regs.get base + offset) (m.regs.get sr)]
  | .add .. | .and .. | .not .. | .lea .. | .br .. | .jmp .. | .jsr .. | .jsrr .. | .trap .. => []

/-- The accesses of a step: the fetch, and those of what has been fetched. -/
def accesses (con : Console σ) (m : Machine) (c : σ) : List (Access σ) :=
  if m.state = .running then
    obtaining con m.regs.pc (m.mem, c) fun w s =>
      match Instruction.decode w with
      | .ok i => executing con (m.fetched s.1) s.2 i
      | .error _ => []
  else []

/-- What an access makes of memory. -/
def Access.effect (con : Console σ) (mem : Memory) : Access σ → Memory
  | .obtained a _ before _ =>
    if a = keyStatus then
      match con.pollKey before with
      | .ok key _ => mem.latch key
      | .error _ _ => mem
    else mem
  | .stored a v => mem.set a v

/-- The accesses account for all that an action does to memory. -/
def Performs (con : Console σ) (x : Action σ ε α) (m : Machine) (c : σ) (log : List (Access σ)) :
    Prop :=
  (stateLeft (x (m, c))).1.mem = log.foldl (Access.effect con) m.mem

variable {con : Console σ} {m : Machine} {c : σ}

theorem effect_obtained {a w : Word} {mem mem' : Memory} {c' : σ}
    (h : Memory.read con a (mem, c) = .ok w (mem', c')) :
    Access.effect con mem (.obtained a w c c') = mem' := by
  rw [Access.effect]
  rcases Memory.read_eq_ok h with ⟨ha, -, rfl, -⟩ | ⟨ha, key, polled, -, rfl⟩
  · rw [if_neg ha]
  · rw [if_pos ha, polled]

/-- Where memory is read, the accesses are that read and those of what follows it. -/
private theorem load_bind_performs {a : Word} {f : Word → Action σ Console.Error α}
    {next : Word → Memory × σ → List (Access σ)}
    (h : ∀ w mem c', Performs con (f w) { m with mem } c' (next w (mem, c'))) :
    Performs con (load con a >>= f) m c (obtaining con a (m.mem, c) next) := by
  rw [Performs, obtaining]
  cases read : Memory.read con a (m.mem, c) with
  | ok w s =>
    obtain ⟨mem, c'⟩ := s
    rw [bind_of_ok (load_eq_ok.2 ⟨mem, read, rfl⟩), List.foldl_cons, effect_obtained read]
    exact h w mem c'
  | error e s =>
    obtain ⟨mem, c'⟩ := s
    obtain ⟨ha, polled, rfl⟩ := Memory.read_eq_error read
    rw [bind_of_error (load_eq_error.2 ⟨ha, polled, rfl⟩)]
    rfl

private theorem execute_performs (con : Console σ) (m : Machine) (c : σ) (i : Instruction Reg) :
    Performs con (execute con i) m c (executing con m c i) := by
  cases i with
  | add | and | not | lea | br | jmp | st | str | jsr | jsrr => rfl
  | ld | ldr | sti =>
    rw [Performs, execute, inRegs_bind]
    exact load_bind_performs fun _ _ _ => rfl
  | ldi =>
    rw [Performs, execute, inRegs_bind]
    exact load_bind_performs fun _ _ _ => load_bind_performs fun _ _ _ => rfl
  | trap v =>
    rw [Performs]
    cases hx : execute con (.trap v) (m, c) with
    | ok u s =>
      obtain ⟨m', c'⟩ := s
      cases execute_eq_ok hx
      rfl
    | error e s =>
      obtain ⟨m', c'⟩ := s
      obtain ⟨regs, -, rfl⟩ := execute_trap_eq_error.1 hx
      rfl

/-- The accesses of a step account for all that it does to memory, even if it fails. -/
theorem mem_of_step (con : Console σ) (m : Machine) (c : σ) :
    (leaves (step con (m, c))).mem = (accesses con m c).foldl (Access.effect con) m.mem := by
  rw [accesses]
  by_cases running : m.state = .running
  · rw [if_pos running, obtaining]
    cases read : Memory.read con m.regs.pc (m.mem, c) with
    | error e s =>
      obtain ⟨mem, c'⟩ := s
      obtain ⟨-, -, rfl⟩ := Memory.read_eq_error read
      rw [step_of_fetch_error running read]
      rfl
    | ok w s =>
      obtain ⟨mem, c₁⟩ := s
      rw [List.foldl_cons, effect_obtained read]
      cases hd : Instruction.decode w with
      | error cause =>
        rw [step_of_decode_error running read hd]
        rfl
      | ok i =>
        have performs := execute_performs con (m.fetched mem) c₁ i
        rw [Performs] at performs
        cases hx : execute con i (m.fetched mem, c₁) with
        | ok u s =>
          rw [step_of_execute running read hd hx]
          rw [hx] at performs
          exact performs
        | error e s =>
          rw [step_of_execute_error running read hd hx]
          rw [hx] at performs
          exact performs
  · rw [if_neg running, step_of_stopped running]
    rfl

section Words
variable {i : Instruction Reg} {m' : Machine} {c' : σ}

/-- The register that an instruction loads with a word from memory. -/
def loaded? : Instruction Reg → Option Reg
  | .ld dr _ | .ldi dr _ | .ldr dr .. => some dr
  | .add .. | .and .. | .not .. | .lea .. | .st .. | .sti .. | .str .. | .br .. | .jmp .. | .jsr ..
  | .jsrr .. | .trap .. => none

/-- The first access of a completed step is the fetch of what was executed. -/
theorem accesses_of_step (h : step con (m, c) = .ok i (m', c')) : ∃ w mem c₁ m₁,
    Instruction.decode w = .ok i ∧
      accesses con m c = .obtained m.regs.pc w c c₁ :: executing con (m.fetched mem) c₁ i ∧
      Executes con (m.fetched mem) c₁ i m₁ c' ∧ m'.regs = m₁.regs := by
  obtain ⟨running, w, mem, c₁, m₁, read, hd, hx, rfl⟩ := step_eq_ok h
  refine ⟨w, mem, c₁, m₁, hd, ?_, execute_eq_ok hx, rfl⟩
  simp only [accesses, running, if_true, obtaining, read, hd]

/-- The last word that a load obtains is what it puts into its register. -/
theorem Executes.loaded {r : Reg} (h : Executes con m c i m' c') (loads : loaded? i = some r) :
    ∃ a before after,
      (executing con m c i).getLast? = some (.obtained a (m'.regs.get r) before after) := by
  cases h with
  | add | and | not | lea | st | sti | str | br | jmp | jsr | jsrr | trap => cases loads
  | ld _ read | ldr _ _ read =>
    cases loads
    simp [executing, obtaining, read]
  | ldi _ pointer read =>
    cases loads
    simp [executing, obtaining, pointer, read]

end Words

end LittleComputer.Machine
