import LittleComputer.Proofs.Image.Loading
import LittleComputer.Proofs.Machine.FailedStep
import LittleComputer.Proofs.Machine.Refinement
import LittleComputer.Proofs.Machine.Trace

/-! The condition code over the life of a machine. It is the sign of the value that was last written
to a register by an instruction that flags what it writes, whatever has come after. -/
namespace LittleComputer

/-- The register whose new value an instruction flags. -/
def Instruction.flagged? : Instruction Reg → Option Reg
  | .add dr .. | .and dr .. | .not dr .. | .ld dr .. | .ldi dr .. | .ldr dr .. | .lea dr .. =>
    some dr
  | .trap v => if Trap.receives v then some .r0 else none
  | .st .. | .sti .. | .str .. | .br .. | .jmp .. | .jsr .. | .jsrr .. => none

/-- Whether a branch mask asks for the sign of a value. Its bits from the top are for negative
values, for zero and for positive values. -/
def Selects (nzp v : Word) : Prop :=
  (v.toBitVec.toInt < 0 ∧ nzp.toBitVec.getLsbD 2 = true) ∨
    (v.toBitVec.toInt = 0 ∧ nzp.toBitVec.getLsbD 1 = true) ∨
    (0 < v.toBitVec.toInt ∧ nzp.toBitVec.getLsbD 0 = true)

instance (nzp v : Word) : Decidable (Selects nzp v) := inferInstanceAs (Decidable (_ ∨ _))

/-- The place of a flag's bit in a branch mask. -/
def Flag.position : Flag → Nat
  | .pos => 0
  | .zro => 1
  | .neg => 2

theorem Registers.selectedBy_eq_getLsbD (rs : Registers) (nzp : Word) :
    rs.selectedBy nzp = nzp.toBitVec.getLsbD rs.cond.position := by
  have hbit : rs.cond.bits.toBitVec = BitVec.twoPow 16 rs.cond.position := by
    cases rs.cond <;> rfl
  have hne : BitVec.twoPow 16 rs.cond.position ≠ 0#16 := by
    cases rs.cond <;> decide
  rw [selectedBy, Bool.eq_iff_iff, bne_iff_ne, ne_eq, ← UInt16.toBitVec_inj, UInt16.toBitVec_and,
    hbit, BitVec.and_twoPow]
  cases nzp.toBitVec.getLsbD rs.cond.position with
  | false => simp
  | true => simpa using hne

theorem Registers.selectedBy_iff {rs : Registers} {v : Word} (h : rs.cond = Flag.ofWord v)
    (nzp : Word) : rs.selectedBy nzp = true ↔ Selects nzp v := by
  rw [selectedBy_eq_getLsbD, h, OpcodeTable.ofWord_eq_sign, OpcodeTable.sign, Selects]
  rcases Int.lt_trichotomy v.toBitVec.toInt 0 with hneg | hzero | hpos
  · rw [if_pos hneg]
    simp [Flag.position, hneg, hneg.ne, hneg.not_gt]
  · simp [Flag.position, hzero]
  · rw [if_neg hpos.not_gt, if_neg hpos.ne']
    simp [Flag.position, hpos, hpos.ne', hpos.not_gt]

namespace Machine

section
variable {σ : Type} {con : Console σ} {m m' : Machine} {c c' : σ}

theorem Executes.cond {i : Instruction Reg} (h : Executes con m c i m' c') :
    m'.regs.cond = match i.flagged? with
      | some r => Flag.ofWord (m'.regs.get r)
      | none => m.regs.cond := by
  cases h with
  | add | and | not | ld | ldi | ldr | lea => simp [Instruction.flagged?]
  | st | sti | str | jmp | jsr | jsrr => rfl
  | br =>
    simp only [Instruction.flagged?]
    split <;> rfl
  | @trap v _ _ _ served =>
    have wrote := Trap.regs_of_run served
    rw [Instruction.flagged?]
    cases hv : Trap.receives v with
    | true =>
      rw [hv, if_pos rfl] at wrote
      obtain ⟨key, rfl⟩ := wrote
      simp
    | false =>
      rw [hv] at wrote
      cases wrote
      rfl

theorem cond_of_step {i : Instruction Reg} (h : step con (m, c) = .ok i (m', c')) :
    m'.regs.cond = match i.flagged? with
      | some r => Flag.ofWord (m'.regs.get r)
      | none => m.regs.cond := by
  obtain ⟨-, w, mem, c₁, m₁, -, -, hx, rfl⟩ := step_eq_ok h
  exact (execute_eq_ok hx).cond

/-- A branch goes its way if the flag that is set has a bit in the mask. -/
theorem step_of_br {nzp offset : Word} (running : m.state = .running)
    (h : Fetches con m c (.br nzp offset) c') :
    ∃ m', step con (m, c) = .ok (.br nzp offset) (m', c') ∧ m'.regs.pc =
      if m.regs.selectedBy nzp then m.regs.pc + 1 + offset else m.regs.pc + 1 := by
  obtain ⟨w, mem, hm, hd⟩ := h
  refine ⟨_, step_of_execute running hm hd rfl, ?_⟩
  change (if m.regs.selectedBy nzp then _ else m.regs.advance : Registers).pc = _
  split <;> rfl

end

/-- An attempt to execute an instruction, on whatever console there then is. -/
structure Attempt : Type 1 where
  {σ : Type}
  console : Console σ
  state : σ

namespace Attempt
variable {a : Attempt} {m : Machine} {v w : Word}

/-- The machine after an attempt, whether or not it has failed. -/
def after (a : Attempt) (m : Machine) : Machine := leaves (step a.console (m, a.state))

/-- An attempt writes a value to a register and flags it. One that fails has done so if it is a
trap that had received a key and was left with nothing but its last flush. -/
inductive Flags (a : Attempt) (m : Machine) : Word → Prop
  | completed {i : Instruction Reg} {m' : Machine} {c' : a.σ} {r : Reg}
      (done : step a.console (m, a.state) = .ok i (m', c')) (flagged : i.flagged? = some r) :
      Flags a m (m'.regs.get r)
  | unflushed {e : Console.Error} {m' : Machine} {c' : a.σ} {key : Byte}
      (failed : step a.console (m, a.state) = .error (.console e) (m', c'))
      (received : ReceivesThenFails a.console m a.state key e c') : Flags a m (m'.regs.get .r0)

theorem Flags.unique (h : a.Flags m v) (h' : a.Flags m w) : w = v := by
  cases h with
  | completed done flagged =>
    cases h' with
    | completed done' flagged' =>
      cases done.symm.trans done'
      cases flagged.symm.trans flagged'
      rfl
    | unflushed failed => cases done.symm.trans failed
  | unflushed failed =>
    cases h' with
    | completed done => cases failed.symm.trans done
    | unflushed failed' =>
      cases failed.symm.trans failed'
      rfl

theorem cond_of_flags (h : a.Flags m v) : (a.after m).regs.cond = Flag.ofWord v := by
  cases h with
  | completed done flagged =>
    rw [after, done]
    have cond := cond_of_step done
    rw [flagged] at cond
    exact cond
  | unflushed failed received =>
    obtain ⟨hr0, hcond⟩ := (step_eq_error failed).footprint.received _ received
    rw [after, failed, hr0]
    exact hcond

/-- An attempt that flags nothing leaves the flags alone, even if it fails. -/
theorem cond_of_not_flags (h : ∀ v, ¬ a.Flags m v) : (a.after m).regs.cond = m.regs.cond := by
  rw [after]
  cases hs : step a.console (m, a.state) with
  | ok i s =>
    have cond := cond_of_step hs
    cases flagged : i.flagged? with
    | none =>
      rw [flagged] at cond
      exact cond
    | some r => exact absurd (.completed hs flagged) (h _)
  | error e s =>
    obtain ⟨m', c'⟩ := s
    cases e with
    | notRunning | fault =>
      cases step_eq_error hs
      rfl
    | console e =>
      apply ((step_eq_error hs).footprint.not_received _).2
      rintro ⟨key, received⟩
      exact h _ (.unflushed hs received)

end Attempt

/-- The machine after attempts one after another. -/
def afterAll (attempts : List Attempt) (m : Machine) : Machine :=
  attempts.foldl (fun m a => a.after m) m

/-- Attempts are made one after another. Where `v` was the last flagged value before them, `v'` is
the last after them, and they leave the machine at `m'`. -/
inductive LastFlagged : Machine → Word → List Attempt → Machine → Word → Prop
  | nil {m : Machine} {v : Word} : LastFlagged m v [] m v
  | flags {m m' : Machine} {v w v' : Word} {a : Attempt} {later : List Attempt}
      (now : a.Flags m w) (rest : LastFlagged (a.after m) w later m' v') :
      LastFlagged m v (a :: later) m' v'
  | passes {m m' : Machine} {v v' : Word} {a : Attempt} {later : List Attempt}
      (now : ∀ w, ¬ a.Flags m w) (rest : LastFlagged (a.after m) v later m' v') :
      LastFlagged m v (a :: later) m' v'

theorem exists_lastFlagged (attempts : List Attempt) (m : Machine) (v : Word) :
    ∃ v', LastFlagged m v attempts (afterAll attempts m) v' := by
  induction attempts generalizing m v with
  | nil => exact ⟨v, .nil⟩
  | cons a attempts ih =>
    by_cases h : ∃ w, a.Flags m w
    · obtain ⟨w, now⟩ := h
      obtain ⟨v', rest⟩ := ih (a.after m) w
      exact ⟨v', .flags now rest⟩
    · obtain ⟨v', rest⟩ := ih (a.after m) v
      exact ⟨v', .passes (not_exists.1 h) rest⟩

theorem LastFlagged.unique {m m' m'' : Machine} {v v' v'' : Word} {attempts : List Attempt}
    (h : LastFlagged m v attempts m' v') (h' : LastFlagged m v attempts m'' v'') :
    m'' = m' ∧ v'' = v' := by
  induction h with
  | nil =>
    cases h'
    exact ⟨rfl, rfl⟩
  | flags now _ ih =>
    cases h' with
    | flags now' rest =>
      cases now.unique now'
      exact ih rest
    | passes now' => exact absurd now (now' _)
  | passes now _ ih =>
    cases h' with
    | flags now' => exact absurd now' (now _)
    | passes _ rest => exact ih rest

/-- Attempts keep the flags in step with the last flagged value. -/
theorem LastFlagged.cond {m m' : Machine} {v v' : Word} {attempts : List Attempt}
    (h : LastFlagged m v attempts m' v') (start : m.regs.cond = Flag.ofWord v) :
    m'.regs.cond = Flag.ofWord v' := by
  induction h with
  | nil => exact start
  | flags now _ ih => exact ih (Attempt.cond_of_flags now)
  | passes now _ ih => exact ih ((Attempt.cond_of_not_flags now).trans start)

/-- After any attempts on a machine that was switched on and loaded with images, the condition code
is the sign of the last flagged value, or of zero if there was none. By that sign the next branch
is taken or not. -/
theorem cond_eq_sign_of_lastFlagged (images : List Image) (attempts : List Attempt) {m : Machine}
    (made : afterAll attempts (images.foldl loadImage initial) = m) :
    ∃ v, (∀ m' v', LastFlagged (images.foldl loadImage initial) 0 attempts m' v' ↔
        m' = m ∧ v' = v) ∧
      m.regs.cond = Flag.ofWord v ∧
      ∀ {σ : Type} (con : Console σ) (c c' : σ) (nzp offset : Word), m.state = .running →
        Fetches con m c (.br nzp offset) c' →
        ∃ m', step con (m, c) = .ok (.br nzp offset) (m', c') ∧ m'.regs.pc =
          if Selects nzp v then m.regs.pc + 1 + offset else m.regs.pc + 1 := by
  subst made
  obtain ⟨v, last⟩ := exists_lastFlagged attempts (images.foldl loadImage initial) 0
  have start : (images.foldl loadImage initial).regs.cond = Flag.ofWord 0 := by
    rw [loadImages_eq]
    rfl
  have cond := last.cond start
  refine ⟨v, fun m' v' => ⟨last.unique, ?_⟩, cond, ?_⟩
  · rintro ⟨rfl, rfl⟩
    exact last
  · intro σ con c c' nzp offset running fetches
    obtain ⟨m', done, pc⟩ := step_of_br running fetches
    simp only [Registers.selectedBy_iff cond nzp] at pc
    exact ⟨m', done, pc⟩

/-- A program that asks for a key and then branches if it is positive. -/
theorem cond_eq_sign_of_unflushed_key :
    let gone : Console.Error := ⟨.brokenPipe, "gone"⟩
    let con : Console Unit := {
      pollKey := fun _ => .ok none ()
      readKey := fun _ => .ok 0x41 ()
      writeByte := fun _ _ => .ok () ()
      flush := fun _ => .error gone () }
    ∃ (program : Image) (m m' : Machine), program.words = [0xF020, 0x0201] ∧
      step con (initial.loadImage program, ()) = .error (.console gone) (m, ()) ∧
      m.regs.cond = .pos ∧ step con (m, ()) = .ok (.br 1 1) (m', ()) ∧ m'.regs.pc = 0x3003 := by
  intro gone con
  let program : Image := ⟨0x3000, [0xF020, 0x0201], by decide, rfl, rfl⟩
  let loaded := initial.loadImage program
  have getc : loaded.mem.peek 0x3000 = 0xF020 := (peek_loadImage initial program 0x3000).trans rfl
  have brp : loaded.mem.peek 0x3001 = 0x0201 := (peek_loadImage initial program 0x3001).trans rfl
  have hm : Memory.read con loaded.regs.pc (loaded.mem, ()) = .ok 0xF020 (loaded.mem, ()) := by
    change Memory.read con 0x3000 _ = _
    rw [Memory.read_of_ne (by decide), getc]
  have hd : Instruction.decode 0xF020 = .ok (.trap .getc) := by cbv
  have hr (mem : Memory) (rs : Registers) :
      Trap.run con mem .getc (rs, ()) = .error gone (rs.setFlagged .r0 0x41, ()) := rfl
  obtain ⟨m, failed⟩ : ∃ m, step con (loaded, ()) = .error (.console gone) (m, ()) :=
    ⟨_, step_of_execute_error rfl hm hd (execute_trap_eq_error.2 ⟨_, hr _ _, rfl⟩)⟩
  have received : ReceivesThenFails con loaded () 0x41 gone () :=
    ⟨.getc, (), ⟨_, _, hm, hd⟩, (), rfl, rfl⟩
  have footprint := (step_eq_error failed).footprint
  have pc : m.regs.pc = 0x3001 := footprint.pc_of_ne (by decide)
  let a : Attempt := ⟨con, ()⟩
  have after : a.after loaded = m := congrArg leaves failed
  have flags : a.Flags loaded 0x41 := by
    have now := Attempt.Flags.unflushed (a := a) failed received
    rw [(footprint.received _ received).1] at now
    exact now
  have fetches : Fetches con m () (.br 1 1) () := by
    refine ⟨0x0201, m.mem, ?_, by cbv⟩
    rw [pc, Memory.read_of_ne (by decide), footprint.memory, brp]
  have made : afterAll [a] ([program].foldl loadImage initial) = m := by
    rw [afterAll, List.foldl_cons, List.foldl_nil, List.foldl_cons, List.foldl_nil]
    exact after
  obtain ⟨v, last, cond, branch⟩ := cond_eq_sign_of_lastFlagged [program] [a] made
  obtain ⟨-, rfl⟩ := (last m 0x41).1 (.flags flags (after ▸ .nil))
  obtain ⟨m', done, pc'⟩ := branch con () () 1 1 footprint.state fetches
  rw [pc, if_pos (by decide)] at pc'
  exact ⟨program, m, m', rfl, failed, cond, done, pc'⟩

end Machine

end LittleComputer
