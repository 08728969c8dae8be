import LittleComputer.Machine.Count
import LittleComputer.Proofs.Memory.Reading
import LittleComputer.Proofs.Sequence
import LittleComputer.Proofs.Trap.Calls

/-! How an instruction can end: what each of its parts does when it succeeds and when it fails,
the five ways in which a step ends, and what is known of the machine in each. -/
namespace LittleComputer.Machine
variable {σ ε α β : Type}

variable {con : Console σ} {m m' : Machine} {c c' : σ}

theorem inRegs_bind (f : Registers → α) (g : α → Action σ ε β) (s : Machine × σ) :
    (inRegs f >>= g) s = g (f s.1.regs) s := rfl

theorem onRegs_apply (f : Registers → Registers) (s : Machine × σ) :
    (onRegs f : Action σ ε Unit) s = .ok () ({ s.1 with regs := f s.1.regs }, s.2) := rfl

theorem onRegs_bind (f : Registers → Registers) (g : Unit → Action σ ε β) (s : Machine × σ) :
    (onRegs f >>= g) s = g () ({ s.1 with regs := f s.1.regs }, s.2) := rfl

theorem store_apply (a v : Word) (s : Machine × σ) :
    (store a v : Action σ ε Unit) s = .ok () ({ s.1 with mem := s.1.mem.set a v }, s.2) := rfl

theorem load_eq_ok {a v : Word} :
    load con a (m, c) = .ok v (m', c') ↔
      ∃ mem, Memory.read con a (m.mem, c) = .ok v (mem, c') ∧ m' = { m with mem } := by
  simp only [load]
  cases Memory.read con a (m.mem, c) <;> grind

/-- A failing read is a poll of the keyboard that failed, and leaves the machine as it was. -/
theorem load_eq_error {a : Word} {e : Console.Error} :
    load con a (m, c) = .error e (m', c') ↔
      a = keyStatus ∧ con.pollKey c = .error e c' ∧ m' = m := by
  constructor
  · intro h
    simp only [load] at h
    cases hr : Memory.read con a (m.mem, c) with
    | ok v s => simp [hr] at h
    | error e₁ s =>
      obtain ⟨mem, c₁⟩ := s
      obtain ⟨ha, hp, rfl⟩ := Memory.read_eq_error hr
      rw [hr] at h
      cases h
      exact ⟨ha, hp, rfl⟩
  · rintro ⟨rfl, hp, rfl⟩
    simp [load, Memory.read, hp]

theorem serve_eq_ok {v : TrapVector} {o : Trap.Outcome} :
    serve con v (m, c) = .ok o (m', c') ↔
      ∃ regs, Trap.run con m.mem v (m.regs, c) = .ok o (regs, c') ∧ m' = { m with regs } := by
  simp only [serve]
  cases Trap.run con m.mem v (m.regs, c) <;> grind

theorem serve_eq_error {v : TrapVector} {e : Console.Error} :
    serve con v (m, c) = .error e (m', c') ↔
      ∃ regs, Trap.run con m.mem v (m.regs, c) = .error e (regs, c') ∧ m' = { m with regs } := by
  simp only [serve]
  cases Trap.run con m.mem v (m.regs, c) <;> grind

/-- A word read from the keyboard status never leads to it, so of two reads that follow each
other only one can poll. -/
private theorem load_load_eq_error {a v : Word} {m₁ : Machine} {c₁ : σ} {e : Console.Error}
    (h : load con a (m, c) = .ok v (m₁, c₁)) (h' : load con v (m₁, c₁) = .error e (m', c')) :
    con.pollKey c = .error e c' ∧ m' = m := by
  obtain ⟨mem, hr, rfl⟩ := load_eq_ok.1 h
  obtain ⟨rfl, hp, rfl⟩ := load_eq_error.1 h'
  rcases Memory.read_eq_ok hr with ⟨-, -, rfl, rfl⟩ | ⟨-, key, -, hv, -⟩
  · exact ⟨hp, rfl⟩
  · exact absurd hv.symm (Memory.statusOf_ne_status key)

/-- A trap fails as its routine does. -/
theorem execute_trap_eq_error {v : TrapVector} {e : Console.Error} :
    execute con (.trap v) (m, c) = .error e (m', c') ↔
      ∃ regs, Trap.run con m.mem v (m.regs.set .r7 m.regs.pc, c) = .error e (regs, c') ∧
        m' = { m with regs } := by
  simp only [execute, onRegs_bind, bind_eq_error]
  constructor
  · rintro (h | ⟨o, s, -, h⟩)
    · exact serve_eq_error.1 h
    · cases o <;> cases h
  · exact fun h => .inl (serve_eq_error.2 h)

/-- An instruction fails with the poll of one of its reads, and then leaves the machine as it
found it; or it is a trap whose routine fails once R7 has been written. -/
theorem execute_eq_error {i : Instruction Reg} {e : Console.Error}
    (h : execute con i (m, c) = .error e (m', c')) :
    ((∀ v, i ≠ .trap v) ∧ con.pollKey c = .error e c' ∧ m' = m) ∨
      ∃ v regs, i = .trap v ∧
        Trap.run con m.mem v (m.regs.set .r7 m.regs.pc, c) = .error e (regs, c') ∧
        m' = { m with regs } := by
  cases i with
  | add | and | not | lea | br | jmp | st | str | jsr | jsrr => cases h
  | ld | ldr =>
    simp only [execute, inRegs_bind, bind_eq_error, onRegs_apply, reduceCtorEq, and_false,
      exists_false, or_false] at h
    exact .inl ⟨nofun, (load_eq_error.1 h).2⟩
  | ldi =>
    simp only [execute, inRegs_bind, bind_eq_error, onRegs_apply, reduceCtorEq, and_false,
      exists_false, or_false] at h
    obtain h | ⟨v, s, h₁, h₂⟩ := h
    · exact .inl ⟨nofun, (load_eq_error.1 h).2⟩
    · exact .inl ⟨nofun, load_load_eq_error h₁ h₂⟩
  | sti =>
    simp only [execute, inRegs_bind, bind_eq_error, store_apply, reduceCtorEq, and_false,
      exists_false, or_false] at h
    exact .inl ⟨nofun, (load_eq_error.1 h).2⟩
  | trap v =>
    obtain ⟨regs, hr, rfl⟩ := execute_trap_eq_error.1 h
    exact .inr ⟨v, regs, rfl, hr, rfl⟩

/-- What each instruction makes of the machine and the console when it succeeds. -/
inductive Executes (con : Console σ) (m : Machine) (c : σ) : Instruction Reg → Machine → σ → Prop
  | add (dr sr : Reg) (op2 : Operand Reg) : Executes con m c (.add dr sr op2)
      { m with regs := m.regs.setFlagged dr (m.regs.get sr + operandValue m.regs op2) } c
  | and (dr sr : Reg) (op2 : Operand Reg) : Executes con m c (.and dr sr op2)
      { m with regs := m.regs.setFlagged dr (m.regs.get sr &&& operandValue m.regs op2) } c
  | not (dr sr : Reg) : Executes con m c (.not dr sr)
      { m with regs := m.regs.setFlagged dr (~~~ m.regs.get sr) } c
  | ld (dr : Reg) {offset v : Word} {mem : Memory} {c' : σ}
      (read : Memory.read con (m.regs.pc + offset) (m.mem, c) = .ok v (mem, c')) :
      Executes con m c (.ld dr offset) { m with regs := m.regs.setFlagged dr v, mem } c'
  | ldi (dr : Reg) {offset a v : Word} {mem₁ mem : Memory} {c₁ c' : σ}
      (pointer : Memory.read con (m.regs.pc + offset) (m.mem, c) = .ok a (mem₁, c₁))
      (read : Memory.read con a (mem₁, c₁) = .ok v (mem, c')) :
      Executes con m c (.ldi dr offset) { m with regs := m.regs.setFlagged dr v, mem } c'
  | ldr (dr base : Reg) {offset v : Word} {mem : Memory} {c' : σ}
      (read : Memory.read con (m.regs.get base + offset) (m.mem, c) = .ok v (mem, c')) :
      Executes con m c (.ldr dr base offset) { m with regs := m.regs.setFlagged dr v, mem } c'
  | lea (dr : Reg) (offset : Word) : Executes con m c (.lea dr offset)
      { m with regs := m.regs.setFlagged dr (m.regs.pc + offset) } c
  | st (sr : Reg) (offset : Word) : Executes con m c (.st sr offset)
      { m with mem := m.mem.set (m.regs.pc + offset) (m.regs.get sr) } c
  | sti (sr : Reg) {offset a : Word} {mem : Memory} {c' : σ}
      (pointer : Memory.read con (m.regs.pc + offset) (m.mem, c) = .ok a (mem, c')) :
      Executes con m c (.sti sr offset) { m with mem := mem.set a (m.regs.get sr) } c'
  | str (sr base : Reg) (offset : Word) : Executes con m c (.str sr base offset)
      { m with mem := m.mem.set (m.regs.get base + offset) (m.regs.get sr) } c
  | br (nzp offset : Word) : Executes con m c (.br nzp offset)
      { m with regs := if m.regs.selectedBy nzp then { m.regs with pc := m.regs.pc + offset }
                       else m.regs } c
  | jmp (base : Reg) : Executes con m c (.jmp base)
      { m with regs := { m.regs with pc := m.regs.get base } } c
  | jsr (offset : Word) : Executes con m c (.jsr offset)
      { m with regs := { m.regs.set .r7 m.regs.pc with pc := m.regs.pc + offset } } c
  | jsrr (base : Reg) : Executes con m c (.jsrr base)
      { m with regs := { m.regs.set .r7 m.regs.pc with
          pc := (m.regs.set .r7 m.regs.pc).get base } } c
  | trap {v : TrapVector} {o : Trap.Outcome} {regs : Registers} {c' : σ}
      (served : Trap.run con m.mem v (m.regs.set .r7 m.regs.pc, c) = .ok o (regs, c')) :
      Executes con m c (.trap v)
        { m with regs, state := if v = .halt then .halted else m.state } c'

theorem execute_eq_ok {i : Instruction Reg} (h : execute con i (m, c) = .ok () (m', c')) :
    Executes con m c i m' c' := by
  cases i with
  | add | and | not | lea | br | jmp | st | str | jsr | jsrr =>
    cases h
    constructor
  | ld | ldr =>
    simp only [execute, inRegs_bind, bind_eq_ok] at h
    obtain ⟨v, ⟨m₁, c₁⟩, hl, hr⟩ := h
    obtain ⟨mem, read, rfl⟩ := load_eq_ok.1 hl
    cases hr
    constructor
    exact read
  | ldi =>
    simp only [execute, inRegs_bind, bind_eq_ok] at h
    obtain ⟨a, ⟨m₁, c₁⟩, ha, v, ⟨m₂, c₂⟩, hl, hr⟩ := h
    obtain ⟨mem₁, pointer, rfl⟩ := load_eq_ok.1 ha
    obtain ⟨mem₂, read, rfl⟩ := load_eq_ok.1 hl
    cases hr
    exact .ldi _ pointer read
  | sti =>
    simp only [execute, inRegs_bind, bind_eq_ok] at h
    obtain ⟨a, ⟨m₁, c₁⟩, ha, hr⟩ := h
    obtain ⟨mem, pointer, rfl⟩ := load_eq_ok.1 ha
    cases hr
    exact .sti _ pointer
  | trap v =>
    simp only [execute, onRegs_bind, bind_eq_ok] at h
    obtain ⟨o, ⟨m₁, c₁⟩, hs, hr⟩ := h
    obtain ⟨regs, served, rfl⟩ := serve_eq_ok.1 hs
    have executes := Executes.trap (m := m) served
    have ho := Trap.outcome_eq served
    by_cases hv : v = .halt
    · rw [if_pos hv] at ho executes
      subst ho
      cases hr
      exact executes
    · rw [if_neg hv] at ho executes
      subst ho
      cases hr
      exact executes

/-- An instruction leaves the state alone, unless it is the one that halts. -/
theorem state_of_execute {i : Instruction Reg} (h : execute con i (m, c) = .ok () (m', c')) :
    m'.state = if i = .trap .halt then .halted else m.state := by
  cases execute_eq_ok h with
  | trap => simp
  | _ => rfl

/-- The status of an idle keyboard is a branch never taken. -/
theorem decode_status_none : Instruction.decode (Memory.statusOf none) = .ok (.br 0 0) := by
  rw [Memory.statusOf, Instruction.decode, show Opcode.ofWord 0 = .br from rfl]
  rfl

/-- The status of a keyboard with a key ready is no instruction. -/
theorem decode_status_some (key : Byte) :
    Instruction.decode (Memory.statusOf (some key)) = .error (.reserved .rti keyReady) := by
  rw [Memory.statusOf, Instruction.decode, show Opcode.ofWord keyReady = .rti from rfl]

/-- Nothing else is executed that has been fetched from the status. -/
theorem decode_status_eq_ok {key : Option Byte} {i : Instruction Reg}
    (h : Instruction.decode (Memory.statusOf key) = .ok i) : key = none ∧ i = .br 0 0 := by
  cases key with
  | none =>
    cases decode_status_none.symm.trans h
    exact ⟨rfl, rfl⟩
  | some k => cases (decode_status_some k).symm.trans h

/-- The machine once a word has been fetched, which left `mem`. -/
def fetched (m : Machine) (mem : Memory) : Machine := { m with regs := m.regs.advance, mem }

private theorem decodeOrFault_of_ok {w : Word} {i : Instruction Reg}
    (h : Instruction.decode w = .ok i) (pc : Word) (s : Machine × σ) :
    decodeOrFault pc w s = .ok i s := by
  simp [decodeOrFault, h, pure, EStateM.pure]

private theorem decodeOrFault_of_error {w : Word} {cause : DecodeError}
    (h : Instruction.decode w = .error cause) (pc : Word) (s : Machine × σ) :
    decodeOrFault pc w s = .error (.fault pc w cause) ({ s.1 with state := .faulted }, s.2) := by
  simp only [decodeOrFault, h]
  rfl

theorem step_of_stopped (h : m.state ≠ .running) :
    step con (m, c) = .error (.notRunning m.state) (m, c) := by
  have hr : m.isRunning = false := by simpa [isRunning] using h
  rw [step, bind_of_error]
  simp [requireRunning, hr]

private theorem requireRunning_of_running (h : m.state = .running) :
    (requireRunning : Action σ Error Unit) (m, c) = .ok () (m, c) := by
  simp [requireRunning, isRunning, h]

section Running
variable (running : m.state = .running)
include running

theorem step_of_fetch_error {e : Console.Error} {mem : Memory}
    (hm : Memory.read con m.regs.pc (m.mem, c) = .error e (mem, c')) :
    step con (m, c) = .error (.console e) ({ m with mem }, c') := by
  rw [step, bind_of_ok (requireRunning_of_running running), inRegs_bind, bind_of_error]
  simp [EStateM.adaptExcept, load, hm]

variable {w : Word} {mem : Memory} {c₁ : σ}
  (hm : Memory.read con m.regs.pc (m.mem, c) = .ok w (mem, c₁))
include hm

private theorem step_of_fetch :
    step con (m, c) = (do
      let i ← decodeOrFault m.regs.pc w
      (execute con i).adaptExcept .console
      count
      return i) (m.fetched mem, c₁) := by
  have hl : (load con m.regs.pc).adaptExcept Error.console (m, c) = .ok w ({ m with mem }, c₁) := by
    simp [EStateM.adaptExcept, load, hm]
  rw [step, bind_of_ok (requireRunning_of_running running), inRegs_bind, bind_of_ok hl]
  rfl

theorem step_of_decode_error {cause : DecodeError} (hd : Instruction.decode w = .error cause) :
    step con (m, c) =
      .error (.fault m.regs.pc w cause) ({ m.fetched mem with state := .faulted }, c₁) := by
  rw [step_of_fetch running hm, bind_of_error (decodeOrFault_of_error hd _ _)]

variable {i : Instruction Reg} (hd : Instruction.decode w = .ok i)
include hd

theorem step_of_execute_error {e : Console.Error} {s : Machine × σ}
    (hx : execute con i (m.fetched mem, c₁) = .error e s) :
    step con (m, c) = .error (.console e) s := by
  rw [step_of_fetch running hm, bind_of_ok (decodeOrFault_of_ok hd _ _), bind_of_error]
  exact adaptExcept_eq_error.2 ⟨e, hx, rfl⟩

theorem step_of_execute {s : Machine × σ} (hx : execute con i (m.fetched mem, c₁) = .ok () s) :
    step con (m, c) = .ok i ({ s.1 with cycles := s.1.cycles + 1 }, s.2) := by
  rw [step_of_fetch running hm, bind_of_ok (decodeOrFault_of_ok hd _ _),
    bind_of_ok (adaptExcept_eq_ok.2 hx)]
  rfl

end Running

/-- A completed step fetched a word, decoded it, executed what it says and counted it. -/
theorem step_eq_ok {i : Instruction Reg} (h : step con (m, c) = .ok i (m', c')) :
    m.state = .running ∧ ∃ w mem c₁ m₁,
      Memory.read con m.regs.pc (m.mem, c) = .ok w (mem, c₁) ∧ Instruction.decode w = .ok i ∧
      execute con i (m.fetched mem, c₁) = .ok () (m₁, c') ∧
      m' = { m₁ with cycles := m₁.cycles + 1 } := by
  by_cases running : m.state = .running
  · cases hm : Memory.read con m.regs.pc (m.mem, c) with
    | error e s => cases (step_of_fetch_error running hm).symm.trans h
    | ok w s =>
      obtain ⟨mem, c₁⟩ := s
      cases hd : Instruction.decode w with
      | error cause => cases (step_of_decode_error running hm hd).symm.trans h
      | ok j =>
        cases hx : execute con j (m.fetched mem, c₁) with
        | error e s => cases (step_of_execute_error running hm hd hx).symm.trans h
        | ok u s =>
          cases (step_of_execute running hm hd hx).symm.trans h
          exact ⟨running, w, mem, c₁, s.1, rfl, hd, hx, rfl⟩
  · cases (step_of_stopped running).symm.trans h

/-- As long as there is room, the count of a completed step is one more as a number too. -/
theorem toNat_cycles_of_step {i : Instruction Reg} (h : step con (m, c) = .ok i (m', c'))
    (room : m.cycles.toNat + 1 < UInt64.size) : m'.cycles.toNat = m.cycles.toNat + 1 := by
  have hc : m'.cycles = m.cycles + 1 := cycles_of_step h
  rw [hc, UInt64.toNat_add, UInt64.toNat_one]
  exact Nat.mod_eq_of_lt room

/-- The ways in which a step fails, with what each leaves behind. -/
inductive StepFailure (con : Console σ) (m : Machine) (c : σ) : Error → Machine → σ → Prop
  | stopped (h : m.state ≠ .running) : StepFailure con m c (.notRunning m.state) m c
  | fetch {e : Console.Error} {c' : σ} (running : m.state = .running)
      (status : m.regs.pc = keyStatus) (polled : con.pollKey c = .error e c') :
      StepFailure con m c (.console e) m c'
  | decode {w : Word} {mem : Memory} {c' : σ} {cause : DecodeError} (running : m.state = .running)
      (fetched : Memory.read con m.regs.pc (m.mem, c) = .ok w (mem, c'))
      (decoded : Instruction.decode w = .error cause) :
      StepFailure con m c (.fault m.regs.pc w cause) { m.fetched mem with state := .faulted } c'
  | execute {w : Word} {mem : Memory} {c₁ c' : σ} {i : Instruction Reg} {e : Console.Error}
      {m' : Machine} (running : m.state = .running)
      (fetched : Memory.read con m.regs.pc (m.mem, c) = .ok w (mem, c₁))
      (decoded : Instruction.decode w = .ok i)
      (failed : execute con i (m.fetched mem, c₁) = .error e (m', c')) :
      StepFailure con m c (.console e) m' c'

theorem step_eq_error {e : Error} (h : step con (m, c) = .error e (m', c')) :
    StepFailure con m c e m' c' := by
  by_cases running : m.state = .running
  · cases hm : Memory.read con m.regs.pc (m.mem, c) with
    | error cause s =>
      obtain ⟨mem, c₁⟩ := s
      cases (step_of_fetch_error running hm).symm.trans h
      obtain ⟨status, polled, rfl⟩ := Memory.read_eq_error hm
      exact .fetch running status polled
    | ok w s =>
      obtain ⟨mem, c₁⟩ := s
      cases hd : Instruction.decode w with
      | error cause =>
        cases (step_of_decode_error running hm hd).symm.trans h
        exact .decode running hm hd
      | ok j =>
        cases hx : execute con j (m.fetched mem, c₁) with
        | error cause s =>
          cases (step_of_execute_error running hm hd hx).symm.trans h
          exact .execute running hm hd hx
        | ok u s => cases (step_of_execute running hm hd hx).symm.trans h
  · cases (step_of_stopped running).symm.trans h
    exact .stopped running

end LittleComputer.Machine
