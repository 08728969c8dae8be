import LittleComputer.Console.Buffer
import LittleComputer.Proofs.Console.Journal
import LittleComputer.Proofs.Machine.Refinement

/-! Faults: which words stop the machine, and what a step that meets one leaves behind. The words
are told by their bits, without the decoder. A fault is found between the fetch and the first
thing an instruction does, so nothing but the fetch can be seen of such a step. -/
namespace LittleComputer

/-- A word that is no instruction, with the reason: a reserved operation, or a trap that is none
of the six. -/
inductive Meaningless (w : Word) : DecodeError → Prop
  | rti (operation : bits w 12 4 = 0b1000#4) : Meaningless w (.reserved .rti w)
  | res (operation : bits w 12 4 = 0b1101#4) : Meaningless w (.reserved .res w)
  | trap (operation : bits w 12 4 = 0b1111#4)
      (vector : bits w 0 8 < 0x20#8 ∨ 0x25#8 < bits w 0 8) :
      Meaningless w (.unknownTrap ⟨bits w 0 8⟩)

theorem meaningless_iff_bits {w : Word} :
    (∃ cause, Meaningless w cause) ↔ bits w 12 4 = 0b1000#4 ∨ bits w 12 4 = 0b1101#4 ∨
      bits w 12 4 = 0b1111#4 ∧ (bits w 0 8 < 0x20#8 ∨ 0x25#8 < bits w 0 8) := by
  constructor
  · rintro ⟨cause, rti | res | ⟨operation, vector⟩⟩
    · exact .inl rti
    · exact .inr (.inl res)
    · exact .inr (.inr ⟨operation, vector⟩)
  · rintro (rti | res | ⟨operation, vector⟩)
    · exact ⟨_, .rti rti⟩
    · exact ⟨_, .res res⟩
    · exact ⟨_, .trap operation vector⟩

private theorem ofCode?_eq_none :
    ∀ b : BitVec 8, TrapVector.ofCode? ⟨b⟩ = none ↔ b < 0x20#8 ∨ 0x25#8 < b := by
  decide

private theorem ofCode?_lowByte (w : Word) :
    TrapVector.ofCode? (lowByte w) = none ↔ bits w 0 8 < 0x20#8 ∨ 0x25#8 < bits w 0 8 := by
  rw [OpcodeTable.lowByte_eq]
  exact ofCode?_eq_none _

/-- The decoder refuses exactly the words without a meaning, each for its reason. -/
theorem decode_eq_error_iff {w : Word} {cause : DecodeError} :
    Instruction.decode w = .error cause ↔ Meaningless w cause := by
  constructor
  · intro h
    cases ho : Opcode.ofWord w with
    | rti =>
      simp only [Instruction.decode, ho] at h
      cases h
      exact .rti (bits_opcode ho)
    | res =>
      simp only [Instruction.decode, ho] at h
      cases h
      exact .res (bits_opcode ho)
    | trap =>
      simp only [Instruction.decode, ho] at h
      cases hv : TrapVector.ofCode? (lowByte w) with
      | some v => simp [hv] at h
      | none =>
        simp only [hv] at h
        cases h
        rw [OpcodeTable.lowByte_eq]
        exact .trap (bits_opcode ho) ((ofCode?_lowByte w).1 hv)
    | br | add | ld | st | jsr | and | ldr | str | not | ldi | sti | jmp | lea =>
      simp only [Instruction.decode, ho] at h
      cases h
  · rintro (rti | res | ⟨operation, vector⟩)
    · simp only [Instruction.decode, ofWord_of_bits (o := .rti) rti]
    · simp only [Instruction.decode, ofWord_of_bits (o := .res) res]
    · have unknown := (ofCode?_lowByte w).2 vector
      simp only [Instruction.decode, ofWord_of_bits (o := .trap) operation, unknown]
      rw [OpcodeTable.lowByte_eq]
      rfl

namespace Machine
variable {σ : Type} {con : Console σ} {m m' : Machine} {c c' c₁ : σ} {w : Word} {mem : Memory}

/-- A step ends in a fault. -/
def Faults (con : Console σ) (m : Machine) (c : σ) : Prop :=
  ∃ pc word cause s, step con (m, c) = .error (.fault pc word cause) s

/-- What a fault `e` leaves of the machine and its console. Of the console's calls there is at most
the poll of the fetch: a journal holds no other, and whatever another console does on its other
calls, with the same polls it comes to the same. -/
structure Contained (con : Console σ) (m : Machine) (c : σ) (e : Error) (m' : Machine) (c' : σ) :
    Prop where
  state : m'.state = .faulted
  pc : m'.regs.pc = m.regs.pc + 1
  cycles : m'.cycles = m.cycles
  registers : ∀ r, m'.regs.get r = m.regs.get r
  cond : m'.regs.cond = m.regs.cond
  memory : ∀ a, (m.regs.pc = keyStatus → a ≠ keyStatus ∧ a ≠ keyData) →
    m'.mem.peek a = m.mem.peek a
  console : m.regs.pc ≠ keyStatus → c' = c
  polled : m.regs.pc = keyStatus →
    ∃ key, con.pollKey c = .ok (some key) c' ∧ m'.mem = m.mem.latch (some key)
  calls : ∀ flag, step con.beside.journaled (m, Cancellable.noted ⟨c, flag⟩ []) =
    .error e (m', Cancellable.noted ⟨c', flag⟩
      (if m.regs.pc = keyStatus then [⟨.pollKey, none⟩] else []))
  uncalled : ∀ con' : Console σ, con'.pollKey = con.pollKey →
    step con' (m, c) = .error e (m', c')

/-- A step of a running machine faults exactly when the fetched word has no meaning. -/
theorem faults_iff (running : m.state = .running)
    (fetch : Memory.read con m.regs.pc (m.mem, c) = .ok w (mem, c₁)) :
    Faults con m c ↔ ∃ cause, Meaningless w cause := by
  constructor
  · rintro ⟨pc, word, cause, ⟨m', c'⟩, hs⟩
    cases step_eq_error hs with
    | decode _ fetched decoded =>
      cases fetch.symm.trans fetched
      exact ⟨cause, decode_eq_error_iff.1 decoded⟩
  · rintro ⟨cause, meaningless⟩
    exact ⟨_, _, _, _, step_of_decode_error running fetch (decode_eq_error_iff.2 meaningless)⟩

private theorem read_journaled {flag : Bool}
    (fetch : Memory.read con m.regs.pc (m.mem, c) = .ok w (mem, c₁)) :
    Memory.read con.beside.journaled m.regs.pc (m.mem, Cancellable.noted ⟨c, flag⟩ []) =
      .ok w (mem, Cancellable.noted ⟨c₁, flag⟩
        (if m.regs.pc = keyStatus then [⟨.pollKey, none⟩] else [])) := by
  rcases Memory.read_eq_ok fetch with ⟨hpc, rfl, rfl, rfl⟩ | ⟨hpc, key, polled, rfl, rfl⟩
  · rw [if_neg hpc, Memory.read_of_ne hpc]
  · have noted : con.beside.journaled.pollKey (Cancellable.noted ⟨c, flag⟩ []) =
        .ok key (Cancellable.noted ⟨c₁, flag⟩ [⟨.pollKey, none⟩]) := by
      simp [Console.journaled, Console.Journaled.noting, Console.beside, Cancellable.lift,
        Cancellable.noted, polled]
    rw [if_pos hpc, hpc, Memory.read_status_of_ok noted]

private theorem contained_of_decode {cause : DecodeError} (running : m.state = .running)
    (fetch : Memory.read con m.regs.pc (m.mem, c) = .ok w (mem, c₁))
    (decoded : Instruction.decode w = .error cause) :
    Contained con m c (.fault m.regs.pc w cause) { m.fetched mem with state := .faulted } c₁ where
  state := rfl
  pc := rfl
  cycles := rfl
  registers r := rfl
  cond := rfl
  memory a apart := by
    rcases Memory.read_eq_ok fetch with ⟨-, -, rfl, -⟩ | ⟨hpc, key, -, -, rfl⟩
    · rfl
    · obtain ⟨status, data⟩ := apart hpc
      cases key <;> simp [fetched, Memory.latch, Memory.peek_set, status.symm, data.symm]
  console hpc := by
    rcases Memory.read_eq_ok fetch with ⟨-, -, -, rfl⟩ | ⟨hpc', -⟩
    · rfl
    · exact absurd hpc' hpc
  polled hpc := by
    rcases Memory.read_eq_ok fetch with ⟨hne, -⟩ | ⟨-, key, polled, rfl, rfl⟩
    · exact absurd hpc hne
    · cases key with
      | none => cases decode_status_none.symm.trans decoded
      | some key => exact ⟨key, polled, rfl⟩
  calls flag := step_of_decode_error running (read_journaled fetch) decoded
  uncalled con' same := by
    have fetch' : Memory.read con' m.regs.pc (m.mem, c) = .ok w (mem, c₁) := by
      rw [← fetch, Memory.read, Memory.read, same]
    exact step_of_decode_error running fetch' decoded

/-- A fault names the word and where it stood, and is contained. -/
theorem contained_of_fault {pc word : Word} {cause : DecodeError}
    (h : step con (m, c) = .error (.fault pc word cause) (m', c')) :
    pc = m.regs.pc ∧ Meaningless word cause ∧
      (∃ mem, Memory.read con m.regs.pc (m.mem, c) = .ok word (mem, c')) ∧
      Contained con m c (.fault pc word cause) m' c' := by
  cases step_eq_error h with
  | decode running fetched decoded =>
    exact ⟨rfl, decode_eq_error_iff.1 decoded, ⟨_, fetched⟩,
      contained_of_decode running fetched decoded⟩

/-- What is fetched from the keyboard status has no meaning exactly when there is a key. -/
theorem meaningless_statusOf {key : Option Byte} :
    (∃ cause, Meaningless (Memory.statusOf key) cause) ↔ ∃ k, key = some k := by
  simp only [← decode_eq_error_iff]
  cases key with
  | none => simp [decode_status_none]
  | some k => simp [decode_status_some k]

/-- A step of a running machine that has fetched `w` faults exactly if the bits of `w` say nothing to
do. The fault carries the address of the word, the word itself and the reason, and is contained. A
fetch from the keyboard status faults exactly when its poll delivers a key. -/
theorem step_faults_exactly (con : Console σ) (m : Machine) (c : σ) (running : m.state = .running)
    (fetch : Memory.read con m.regs.pc (m.mem, c) = .ok w (mem, c₁)) :
    (Faults con m c ↔ bits w 12 4 = 0b1000#4 ∨ bits w 12 4 = 0b1101#4 ∨
      bits w 12 4 = 0b1111#4 ∧ (bits w 0 8 < 0x20#8 ∨ 0x25#8 < bits w 0 8)) ∧
    (∀ pc word cause m' c', step con (m, c) = .error (.fault pc word cause) (m', c') →
      pc = m.regs.pc ∧ word = w ∧ Meaningless w cause ∧
        Contained con m c (.fault m.regs.pc w cause) m' c') ∧
    (m.regs.pc = keyStatus → (Faults con m c ↔ ∃ key, con.pollKey c = .ok (some key) c₁)) := by
  refine ⟨(faults_iff running fetch).trans meaningless_iff_bits, ?_, ?_⟩
  · intro pc word cause m' c' hs
    obtain ⟨rfl, meaningless, ⟨_, fetched⟩, contained⟩ := contained_of_fault hs
    cases fetch.symm.trans fetched
    exact ⟨rfl, rfl, meaningless, contained⟩
  · intro hpc
    rw [faults_iff running fetch]
    rcases Memory.read_eq_ok fetch with ⟨hne, -⟩ | ⟨-, key, polled, rfl, -⟩
    · exact absurd hpc hne
    · rw [meaningless_statusOf, polled]
      simp

/-- A machine sent to the keyboard status while a key is waiting. -/
theorem step_faults_exactly_of_key :
    let m : Machine := { regs := { Registers.initial with pc := keyStatus } }
    let c : Console.Buffer := { keys := [0x41] }
    ∃ m', step Console.Buffer.console (m, c) =
        .error (.fault keyStatus keyReady (.reserved .rti keyReady)) (m', {}) ∧
      Contained Console.Buffer.console m c
        (.fault keyStatus keyReady (.reserved .rti keyReady)) m' {} ∧
      m'.mem.peek keyData = 0x41 := by
  intro m c
  have polled : Console.Buffer.console.pollKey c = .ok (some 0x41) {} := rfl
  have fetch := Memory.read_status_of_ok polled m.mem
  have hs := step_of_decode_error (m := m) rfl fetch (decode_status_some 0x41)
  obtain ⟨-, contained, -⟩ := step_faults_exactly Console.Buffer.console m c rfl fetch
  obtain ⟨-, -, -, held⟩ := contained _ _ _ _ _ hs
  exact ⟨_, hs, held, Memory.peek_latch_data m.mem (some 0x41)⟩

end Machine

end LittleComputer
