import LittleComputer.Proofs.Machine.Stepping
import LittleComputer.Proofs.Registers
import LittleComputer.Proofs.Trap.Calls

/-! A step that fails on the console. Memory is as before, the count too, and of the registers
only the program counter, R7 in a trap, and R0 with the flags may have changed; the last two
only if a key had been received and nothing but the closing flush was left to do. -/
namespace LittleComputer
variable {σ : Type} {con : Console σ}

namespace Trap

/-- A routine receives a key, and of its calls only the last flush fails. -/
def LastFlushFails (con : Console σ) (c : σ) (key : Byte) (e : Console.Error) (c' : σ) :
    TrapVector → Prop
  | .getc => ∃ c₁, con.readKey c = .ok key c₁ ∧ con.flush c₁ = .error e c'
  | .prompt => ∃ c₁ c₂ c₃ c₄, con.writeBytes promptText c = .ok () c₁ ∧ con.flush c₁ = .ok () c₂ ∧
      con.readKey c₂ = .ok key c₃ ∧ con.writeByte key c₃ = .ok () c₄ ∧
      con.flush c₄ = .error e c'
  | _ => False

theorem LastFlushFails.key_unique {c c' : σ} {e : Console.Error} {v : TrapVector} {key key' : Byte}
    (h : LastFlushFails con c key e c' v) (h' : LastFlushFails con c key' e c' v) : key' = key := by
  cases v with
  | getc =>
    obtain ⟨c₁, hk, -⟩ := h
    obtain ⟨d₁, hk', -⟩ := h'
    cases hk.symm.trans hk'
    rfl
  | prompt =>
    obtain ⟨c₁, c₂, c₃, c₄, hw, hf, hk, -⟩ := h
    obtain ⟨d₁, d₂, d₃, d₄, hw', hf', hk', -⟩ := h'
    cases hw.symm.trans hw'
    cases hf.symm.trans hf'
    cases hk.symm.trans hk'
    rfl
  | out | puts | putsp | halt => exact h.elim

/-- Calls that only write leave the registers alone. -/
private theorem writing_eq_error {x y : EStateM Console.Error σ Unit} {o : Outcome}
    {rs rs' : Registers} {c c' : σ} {e : Console.Error}
    (h : (do calling x; calling y; return o) (rs, c) = .error e (rs', c')) : rs' = rs := by
  simp only [calling_bind_eq_error] at h
  obtain ⟨-, rfl⟩ | ⟨_, _, -, ⟨-, rfl⟩ | ⟨_, _, -, h⟩⟩ := h
  · rfl
  · rfl
  · cases h

/-- A failing routine has written a register only if its last flush failed. -/
theorem run_eq_error {mem : Memory} {v : TrapVector} {rs rs' : Registers} {c c' : σ}
    {e : Console.Error} (h : run con mem v (rs, c) = .error e (rs', c')) :
    (∃ key, LastFlushFails con c key e c' v ∧ rs' = rs.setFlagged .r0 key.toUInt16) ∨
      ((∀ key, ¬ LastFlushFails con c key e c' v) ∧ rs' = rs) := by
  cases v with
  | getc =>
    simp only [run, calling_bind_eq_error, receive_bind] at h
    obtain ⟨hk, rfl⟩ | ⟨key, c₁, hk, ⟨hf, rfl⟩ | ⟨_, _, -, h⟩⟩ := h
    · exact .inr ⟨by simp [LastFlushFails, hk], rfl⟩
    · exact .inl ⟨key, ⟨c₁, hk, hf⟩, rfl⟩
    · cases h
  | prompt =>
    simp only [run, calling_bind_eq_error, receive_bind] at h
    obtain ⟨hw, rfl⟩ | ⟨⟨⟩, c₁, hw, h⟩ := h
    · exact .inr ⟨by simp [LastFlushFails, hw], rfl⟩
    obtain ⟨hf, rfl⟩ | ⟨⟨⟩, c₂, hf, h⟩ := h
    · exact .inr ⟨by simp [LastFlushFails, hw, hf], rfl⟩
    obtain ⟨hk, rfl⟩ | ⟨key, c₃, hk, h⟩ := h
    · exact .inr ⟨by simp [LastFlushFails, hw, hf, hk], rfl⟩
    obtain ⟨he, rfl⟩ | ⟨⟨⟩, c₄, he, h⟩ := h
    · exact .inr ⟨by simp [LastFlushFails, hw, hf, hk, he], rfl⟩
    obtain ⟨hl, rfl⟩ | ⟨_, _, -, h⟩ := h
    · exact .inl ⟨key, ⟨c₁, c₂, c₃, c₄, hw, hf, hk, he, hl⟩, rfl⟩
    · cases h
  | out | puts | putsp =>
    simp only [run, get_bind] at h
    exact .inr ⟨fun _ => id, writing_eq_error h⟩
  | halt => exact .inr ⟨fun _ => id, writing_eq_error h⟩

end Trap

namespace Machine
variable {m m' : Machine} {c c' : σ} {e : Console.Error}

/-- A step fetches the instruction `i`, and `c₁` is the console after the fetch. -/
def Fetches (con : Console σ) (m : Machine) (c : σ) (i : Instruction Reg) (c₁ : σ) : Prop :=
  ∃ w mem, Memory.read con m.regs.pc (m.mem, c) = .ok w (mem, c₁) ∧ Instruction.decode w = .ok i

theorem Fetches.unique {i j : Instruction Reg} {c₁ c₂ : σ} (h : Fetches con m c i c₁)
    (h' : Fetches con m c j c₂) : j = i ∧ c₂ = c₁ := by
  obtain ⟨w, mem, hm, hd⟩ := h
  obtain ⟨w', mem', hm', hd'⟩ := h'
  cases hm.symm.trans hm'
  cases hd.symm.trans hd'
  exact ⟨rfl, rfl⟩

/-- A step fetches a trap whose routine receives `key` and fails with its last flush. -/
def ReceivesThenFails (con : Console σ) (m : Machine) (c : σ) (key : Byte) (e : Console.Error)
    (c' : σ) : Prop :=
  ∃ v c₁, Fetches con m c (.trap v) c₁ ∧ Trap.LastFlushFails con c₁ key e c' v

theorem ReceivesThenFails.fetchesTrap {key : Byte} (h : ReceivesThenFails con m c key e c') :
    ∃ v c₁, Fetches con m c (.trap v) c₁ := by
  obtain ⟨v, c₁, hv, -⟩ := h
  exact ⟨v, c₁, hv⟩

/-- What a step that failed with the console error `e` has left of the machine `m`. -/
structure Footprint (con : Console σ) (m : Machine) (c : σ) (e : Console.Error) (m' : Machine)
    (c' : σ) : Prop where
  state : m'.state = .running
  cycles : m'.cycles = m.cycles
  memory : m'.mem = m.mem
  pc_of_status : m.regs.pc = keyStatus → con.pollKey c = .error e c' ∧ m'.regs.pc = m.regs.pc
  pc_of_ne : m.regs.pc ≠ keyStatus → m'.regs.pc = m.regs.pc + 1
  link_of_trap : (∃ v c₁, Fetches con m c (.trap v) c₁) → m'.regs.get .r7 = m.regs.pc + 1
  link_of_other : (¬ ∃ v c₁, Fetches con m c (.trap v) c₁) → m'.regs.get .r7 = m.regs.get .r7
  received : ∀ key, ReceivesThenFails con m c key e c' →
    m'.regs.get .r0 = key.toUInt16 ∧ m'.regs.cond = Flag.ofWord key.toUInt16
  not_received : (¬ ∃ key, ReceivesThenFails con m c key e c') →
    m'.regs.get .r0 = m.regs.get .r0 ∧ m'.regs.cond = m.regs.cond
  others : ∀ r, r ≠ .r0 → r ≠ .r7 → m'.regs.get r = m.regs.get r

/-- Nothing fetched from the keyboard status can fail on the console. -/
theorem ne_status_of_execute_error {w : Word} {mem : Memory} {c₁ : σ}
    {i : Instruction Reg} (hm : Memory.read con m.regs.pc (m.mem, c) = .ok w (mem, c₁))
    (hd : Instruction.decode w = .ok i)
    (hx : execute con i (m.fetched mem, c₁) = .error e (m', c')) : m.regs.pc ≠ keyStatus := by
  rcases Memory.read_eq_ok hm with ⟨hne, -⟩ | ⟨-, key, -, rfl, -⟩
  · exact hne
  · obtain ⟨-, rfl⟩ := decode_status_eq_ok hd
    cases hx

private theorem footprint_of_fetch (running : m.state = .running)
    (status : m.regs.pc = keyStatus) (polled : con.pollKey c = .error e c') :
    Footprint con m c e m c' := by
  have noTrap : ¬ ∃ v c₁, Fetches con m c (.trap v) c₁ := by
    rintro ⟨v, c₁, w, mem, hm, -⟩
    simp [status, Memory.read, polled] at hm
  exact {
    state := running
    cycles := rfl
    memory := rfl
    pc_of_status := fun _ => ⟨polled, rfl⟩
    pc_of_ne := fun hne => absurd status hne
    link_of_trap := fun ht => absurd ht noTrap
    link_of_other := fun _ => rfl
    received := fun _ hk => absurd hk.fetchesTrap noTrap
    not_received := fun _ => ⟨rfl, rfl⟩
    others := fun _ _ _ => rfl }

private theorem footprint_of_read {i : Instruction Reg} (running : m.state = .running)
    (hne : m.regs.pc ≠ keyStatus) (hi : Fetches con m c i c) (ht : ∀ v, i ≠ .trap v) :
    Footprint con m c e (m.fetched m.mem) c' := by
  have noTrap : ¬ ∃ v c₁, Fetches con m c (.trap v) c₁ := by
    rintro ⟨v, c₁, hv⟩
    exact ht v (hi.unique hv).1.symm
  exact {
    state := running
    cycles := rfl
    memory := rfl
    pc_of_status := fun status => absurd status hne
    pc_of_ne := fun _ => rfl
    link_of_trap := fun ht => absurd ht noTrap
    link_of_other := fun _ => rfl
    received := fun _ hk => absurd hk.fetchesTrap noTrap
    not_received := fun _ => ⟨rfl, rfl⟩
    others := fun _ _ _ => rfl }

private theorem footprint_of_trap {v : TrapVector} {regs : Registers} (running : m.state = .running)
    (hne : m.regs.pc ≠ keyStatus) (hv : Fetches con m c (.trap v) c)
    (hr : Trap.run con m.mem v (m.regs.advance.set .r7 (m.regs.pc + 1), c) = .error e (regs, c')) :
    Footprint con m c e { m.fetched m.mem with regs } c' := by
  have fails {key : Byte} (h : ReceivesThenFails con m c key e c') :
      Trap.LastFlushFails con c key e c' v := by
    obtain ⟨v', c₁, hv', hl⟩ := h
    obtain ⟨heq, rfl⟩ := hv.unique hv'
    cases heq
    exact hl
  have r0_ne_r7 : Reg.r0 ≠ Reg.r7 := by decide
  rcases Trap.run_eq_error hr with ⟨key, hl, rfl⟩ | ⟨hno, rfl⟩
  · exact {
      state := running
      cycles := rfl
      memory := rfl
      pc_of_status := fun status => absurd status hne
      pc_of_ne := fun _ => rfl
      link_of_trap := fun _ => by simp [Registers.get_set_of_ne r0_ne_r7.symm]
      link_of_other := fun hn => absurd ⟨v, c, hv⟩ hn
      received := fun key' h => by
        rw [hl.key_unique (fails h)]
        simp
      not_received := fun hn => absurd ⟨key, v, c, hv, hl⟩ hn
      others := fun r h0 h7 => by simp [Registers.get_set_of_ne h0, Registers.get_set_of_ne h7] }
  · exact {
      state := running
      cycles := rfl
      memory := rfl
      pc_of_status := fun status => absurd status hne
      pc_of_ne := fun _ => rfl
      link_of_trap := fun _ => by simp
      link_of_other := fun hn => absurd ⟨v, c, hv⟩ hn
      received := fun key h => absurd (fails h) (hno key)
      not_received := fun _ => by simp [Registers.get_set_of_ne r0_ne_r7]
      others := fun r _ h7 => by simp [Registers.get_set_of_ne h7] }

/-- What is left depends on where the step has failed. -/
theorem StepFailure.footprint (h : StepFailure con m c (.console e) m' c') :
    Footprint con m c e m' c' := by
  cases h with
  | fetch running status polled => exact footprint_of_fetch running status polled
  | @execute w mem c₁ _ i _ _ running hm hd hx =>
    -- A fetch that had polled would have latched the keyboard, but it cannot have been one.
    have hne := ne_status_of_execute_error hm hd hx
    cases (Memory.read_of_ne hne con m.mem c).symm.trans hm
    have hi : Fetches con m c i c := ⟨_, _, hm, hd⟩
    rcases execute_eq_error hx with ⟨ht, -, rfl⟩ | ⟨v, regs, rfl, hr, rfl⟩
    · exact footprint_of_read running hne hi ht
    · exact footprint_of_trap running hne hi hr

/-- A step that fails on the console touches neither memory nor count, and no register but those
its fetched instruction had already written. -/
theorem step_footprint (h : step con (m, c) = .error (.console e) (m', c')) :
    Footprint con m c e m' c' := (step_eq_error h).footprint

/-- A machine that asks for a key, on a console that has one but fails to flush. -/
theorem step_footprint_of_unflushed_key :
    let gone : Console.Error := ⟨.brokenPipe, "gone"⟩
    let con : Console Unit := {
      pollKey := fun _ => .ok none ()
      readKey := fun _ => .ok 0x41 ()
      writeByte := fun _ _ => .ok () ()
      flush := fun _ => .error gone () }
    let m : Machine := { mem := Memory.set {} startAddress 0xF020 }
    ∃ m', step con (m, ()) = .error (.console gone) (m', ()) ∧ Footprint con m () gone m' () ∧
      m'.regs.get .r0 = 0x41 := by
  intro gone con m
  have hm : Memory.read con m.regs.pc (m.mem, ()) = .ok 0xF020 (m.mem, ()) := by
    change Memory.read con startAddress (m.mem, ()) = _
    rw [Memory.read_of_ne (by decide), Memory.peek_set, if_pos rfl]
  have hd : Instruction.decode 0xF020 = .ok (.trap .getc) := by
    rw [Instruction.decode, show Opcode.ofWord 0xF020 = .trap from rfl]
    rfl
  have hr (mem : Memory) (rs : Registers) :
      Trap.run con mem .getc (rs, ()) = .error gone (rs.setFlagged .r0 0x41, ()) := rfl
  have hs := step_of_execute_error rfl hm hd (execute_trap_eq_error.2 ⟨_, hr _ _, rfl⟩)
  exact ⟨_, hs, step_footprint hs, Registers.get_set_self _ _ _⟩

end Machine

end LittleComputer
