import LittleComputer.Proofs.Machine.FailedStep
import LittleComputer.Proofs.Machine.Trace

/-! Which instructions ask for a key. One that is no trap does so if it reads the keyboard status,
be it to fetch a word, to load one or to find a pointer, and then it does so once and the answer
stays in the keyboard's registers. -/
namespace LittleComputer

/-- The keyboard was asked for a key, and has the answer in its registers. -/
structure Memory.Polled {σ : Type} (con : Console σ) (c : σ) (key : Option Byte) (mem : Memory)
    (c' : σ) : Prop where
  polled : con.pollKey c = .ok key c'
  status : mem.peek keyStatus = statusOf key
  data : ∀ k ∈ key, mem.peek keyData = k.toUInt16

namespace Memory
variable {σ : Type} {con : Console σ} {mem mem' : Memory} {c c' : σ}

theorem statusOf_ne_data (key : Option Byte) : statusOf key ≠ keyData := by
  cases key with
  | none => decide
  | some k => exact (by decide : keyReady ≠ keyData)

theorem polled_latch {key : Option Byte} (h : con.pollKey c = .ok key c') (mem : Memory) :
    Polled con c key (mem.latch key) c' where
  polled := h
  status := peek_latch_status mem key
  data := by
    rintro k rfl
    exact (peek_set _ _ _ _).trans (if_pos rfl)

/-- A store elsewhere leaves the answer where it is. -/
theorem Polled.set {key : Option Byte} (h : Polled con c key mem c') {a : Word}
    (status : a ≠ keyStatus) (data : a ≠ keyData) (v : Word) :
    Polled con c key (mem.set a v) c' where
  polled := h.polled
  status := by rw [peek_set, if_neg status, h.status]
  data k hk := by rw [peek_set, if_neg data, h.data k hk]

theorem polled_of_read {a v : Word} (h : read con a (mem, c) = .ok v (mem', c')) :
    (a ≠ keyStatus ∧ v = mem.peek a ∧ mem' = mem ∧ c' = c) ∨
      (a = keyStatus ∧ ∃ key, v = statusOf key ∧ Polled con c key mem' c') := by
  rcases read_eq_ok h with plain | ⟨rfl, key, polled, rfl, rfl⟩
  · exact .inl plain
  · exact .inr ⟨rfl, key, rfl, polled_latch polled mem⟩

end Memory

namespace Machine

/-- The addresses an instruction reads from, when the program counter is already past it. -/
def reads (m : Machine) : Instruction Reg → List Word
  | .ld _ offset | .sti _ offset => [m.regs.pc + offset]
  | .ldi _ offset => [m.regs.pc + offset, m.mem.peek (m.regs.pc + offset)]
  | .ldr _ base offset => [m.regs.get base + offset]
  | .add .. | .and .. | .not .. | .lea .. | .st .. | .str .. | .br .. | .jmp .. | .jsr .. | .jsrr ..
  | .trap .. => []

variable {σ : Type} {con : Console σ} {m m' : Machine} {c c' : σ}

open Memory (Polled polled_of_read)

/-- Somebody who had to read from these addresses has left this memory and this console. -/
def Asked (con : Console σ) (c : σ) (addresses : List Word) (mem : Memory) (c' : σ) : Prop :=
  if keyStatus ∈ addresses then ∃ key, Polled con c key mem c' else c' = c

theorem asked_of_read {mem mem' : Memory} {a v : Word}
    (h : Memory.read con a (mem, c) = .ok v (mem', c')) : Asked con c [a] mem' c' := by
  rw [Asked]
  rcases polled_of_read h with ⟨ha, -, -, rfl⟩ | ⟨rfl, key, -, polled⟩
  · rw [if_neg (by simpa using ha.symm)]
  · rw [if_pos List.mem_cons_self]
    exact ⟨key, polled⟩

/-- Of a pointer and what it points to only one can be read from the status. -/
theorem asked_of_pointer {mem mem₁ mem' : Memory} {a b v : Word} {c₁ : σ}
    (pointer : Memory.read con b (mem, c) = .ok a (mem₁, c₁))
    (h : Memory.read con a (mem₁, c₁) = .ok v (mem', c')) :
    Asked con c [b, mem.peek b] mem' c' := by
  rcases polled_of_read pointer with ⟨hb, rfl, rfl, rfl⟩ | ⟨rfl, key, rfl, polled⟩
  · have asked := asked_of_read h
    simpa [Asked, hb.symm] using asked
  · rw [Memory.read_of_ne (Memory.statusOf_ne_status key)] at h
    cases h
    rw [Asked, if_pos List.mem_cons_self]
    exact ⟨key, polled⟩

theorem asked_of_store {mem mem' : Memory} {a b : Word}
    (pointer : Memory.read con b (mem, c) = .ok a (mem', c')) (v : Word) :
    Asked con c [b] (mem'.set a v) c' := by
  rw [Asked]
  rcases polled_of_read pointer with ⟨hb, rfl, rfl, rfl⟩ | ⟨rfl, key, rfl, polled⟩
  · rw [if_neg (by simpa using hb.symm)]
  · rw [if_pos List.mem_cons_self]
    exact ⟨key, polled.set (Memory.statusOf_ne_status key) (Memory.statusOf_ne_data key) v⟩

theorem Executes.asked {i : Instruction Reg} (h : Executes con m c i m' c')
    (ht : ∀ v, i ≠ .trap v) : Asked con c (m.reads i) m'.mem c' := by
  cases h with
  | add | and | not | lea | st | str | br | jmp | jsr | jsrr => exact rfl
  | ld _ read | ldr _ _ read => exact asked_of_read read
  | ldi _ pointer read => exact asked_of_pointer pointer read
  | sti _ pointer => exact asked_of_store pointer _
  | trap => exact absurd rfl (ht _)

namespace Event

/-- The addresses that were read from in an event: to fetch a word and, where the instruction was
completed, what that reads. -/
def reads (e : Event) : List Word :=
  if e.before.state = .running then
    e.before.regs.pc ::
      match e.result with
      | .ok i => (e.before.fetched e.before.mem).reads i
      | .error _ => []
  else []

end Event

theorem asked_of_step {i : Instruction Reg} (h : step con (m, c) = .ok i (m', c'))
    (ht : ∀ v, i ≠ .trap v) : Asked con c (Event.reads ⟨m, .ok i, m'⟩) m'.mem c' := by
  obtain ⟨running, w, mem, c₁, m₁, hm, hd, hx, rfl⟩ := step_eq_ok h
  have asked := (execute_eq_ok hx).asked ht
  rw [Event.reads, if_pos running]
  rcases polled_of_read hm with ⟨hpc, rfl, rfl, rfl⟩ | ⟨hpc, key, rfl, polled⟩
  · simpa [Asked, hpc.symm] using asked
  · obtain ⟨-, rfl⟩ := decode_status_eq_ok hd
    cases hx
    rw [Asked, hpc, if_pos List.mem_cons_self]
    exact ⟨key, polled⟩

/-- A completed trap was not fetched from the status, and its routine came to its end. -/
theorem step_trap_eq_ok {v : TrapVector} (h : step con (m, c) = .ok (.trap v) (m', c')) :
    m.regs.pc ≠ keyStatus ∧ ∃ o regs, Trap.run con m.mem v
      (m.regs.advance.set .r7 (m.regs.pc + 1), c) = .ok o (regs, c') ∧ m'.regs = regs := by
  obtain ⟨-, w, mem, c₁, m₁, hm, hd, hx, rfl⟩ := step_eq_ok h
  rcases polled_of_read hm with ⟨hpc, -, rfl, rfl⟩ | ⟨-, key, rfl, -⟩
  · cases execute_eq_ok hx with
    | trap served => exact ⟨hpc, _, _, served, rfl⟩
  · cases (decode_status_eq_ok hd).2

/-- A step that fails on the console has asked in vain for a key, or was a trap that was not fetched
from the status. -/
theorem step_eq_console_error {e : Console.Error}
    (h : step con (m, c) = .error (.console e) (m', c')) :
    con.pollKey c = .error e c' ∨ m.regs.pc ≠ keyStatus ∧
      ∃ v regs, Instruction.decode (m.mem.peek m.regs.pc) = .ok (.trap v) ∧
        Trap.run con m.mem v (m.regs.advance.set .r7 (m.regs.pc + 1), c) =
          .error e (regs, c') := by
  cases step_eq_error h with
  | fetch _ _ polled => exact .inl polled
  | execute _ hm hd hx =>
    have hpc := ne_status_of_execute_error hm hd hx
    cases (Memory.read_of_ne hpc con m.mem c).symm.trans hm
    rcases execute_eq_error hx with ⟨-, polled, -⟩ | ⟨v, regs, rfl, failed, -⟩
    · exact .inl polled
    · exact .inr ⟨hpc, v, regs, hd, failed⟩

end Machine

end LittleComputer
