import LittleComputer.Console.Buffer
import LittleComputer.Proofs.Machine.Course
import LittleComputer.Proofs.Machine.Polling
import LittleComputer.Proofs.Machine.Refinement

/-! What goes in and out. A program gets the keys of a buffer one by one in their order, from the
keyboard's registers or from a trap, and what its traps write is what the buffer has in the end. -/
namespace LittleComputer
open OpcodeTable (low high text lowByte_eq packedBytes_eq stringAt_eq_text)

theorem low_toUInt16 (key : Byte) : low key.toUInt16 = key := by
  rw [← lowByte_eq, lowByte]
  simp

/-- What a routine writes, given what it finds in R0 and the key that it receives. -/
def Trap.shown (v : TrapVector) (mem : Memory) (r0 : Word) (received : Option Byte) : List Byte :=
  match v with
  | .getc => []
  | .out => [low r0]
  | .puts => (text mem r0).map low
  | .prompt => asciiBytes "Enter a character: " ++ received.toList
  | .putsp => (text mem r0).flatMap fun w => if high w = 0 then [low w] else [low w, high w]
  | .halt => asciiBytes "HALT\n"

namespace Machine.Event

/-- The key that was put into the data register because the status was read. -/
def latched (e : Event) : Option Byte :=
  if keyStatus ∈ e.reads ∧ e.after.mem.peek keyStatus = keyReady then
    some (low (e.after.mem.peek keyData))
  else none

/-- The key that a trap put into R0. -/
def received (e : Event) : Option Byte :=
  match e.result with
  | .ok (.trap v) => if Trap.receives v then some (low (e.after.regs.get .r0)) else none
  | _ => none

/-- The keys that the program got. -/
def keys (e : Event) : List Byte := e.latched.toList ++ e.received.toList

/-- The trap that was executed, whether or not it was completed. -/
def trap? (e : Event) : Option TrapVector :=
  match e.result with
  | .ok (.trap v) => some v
  | .error (.console _) =>
    match Instruction.decode (e.before.mem.peek e.before.regs.pc) with
    | .ok (.trap v) => some v
    | _ => none
  | _ => none

/-- The bytes that the program wrote. -/
def written (e : Event) : List Byte :=
  match e.trap? with
  | some v => Trap.shown v e.before.mem (e.before.regs.get .r0) e.received
  | none => []

theorem latched_of_notMem {e : Event} (h : keyStatus ∉ e.reads) : e.latched = none :=
  if_neg fun latch => h latch.1

section
variable {m m' : Machine} (hpc : m.regs.pc ≠ keyStatus)
include hpc

theorem latched_of_trap (v : TrapVector) : latched ⟨m, .ok (.trap v), m'⟩ = none := by
  apply latched_of_notMem
  rw [reads]
  split <;> simp [Machine.reads, hpc.symm]

theorem latched_of_error (e : Error) : latched ⟨m, .error e, m'⟩ = none := by
  apply latched_of_notMem
  rw [reads]
  split <;> simp [hpc.symm]

end

end Machine.Event

namespace Console.Buffer
open Machine (Course Order)

theorem pollKey_eq (b : Buffer) :
    console.pollKey b = .ok b.keys.head? { b with keys := b.keys.tail } := by
  obtain ⟨keys, output⟩ := b
  cases keys <;> rfl

theorem writeBytes_eq (bytes : List Byte) (b : Buffer) :
    console.writeBytes bytes b = .ok () { b with output := b.output ++ bytes } := by
  induction bytes generalizing b with
  | nil => simp [writeBytes, pure, EStateM.pure]
  | cons byte bytes ih =>
    refine (ih { b with output := b.output.push byte }).trans ?_
    simp

private theorem writing_eq (bytes : List Byte) (o : Trap.Outcome) (rs : Registers) (b : Buffer) :
    (do
      Trap.calling (console.writeBytes bytes)
      Trap.calling console.flush
      return o : EStateM Error (Registers × Buffer) Trap.Outcome) (rs, b) =
      .ok o (rs, { b with output := b.output ++ bytes }) := by
  rw [bind_of_ok (Trap.calling_of_ok (writeBytes_eq bytes b) rs)]
  rfl

/-- A routine that needs a key fails if there is none, and else every routine comes to its end. -/
theorem run_eq (mem : Memory) (v : TrapVector) (rs : Registers) (b : Buffer) :
    Trap.run console mem v (rs, b) =
    match Trap.receives v, b.keys with
    | false, _ => .ok (if v = .halt then .halt else .resume)
        (rs, { b with output := b.output ++ Trap.shown v mem (rs.get .r0) none })
    | true, [] => .error ⟨.unexpectedEof, "no more scripted input"⟩
        (rs, { b with output := b.output ++ Trap.shown v mem (rs.get .r0) none })
    | true, key :: keys => .ok .resume (rs.setFlagged .r0 key.toUInt16,
        ⟨keys, b.output ++ Trap.shown v mem (rs.get .r0) (some key)⟩) := by
  obtain ⟨keys, output⟩ := b
  cases v with
  | getc =>
    cases keys with
    | nil =>
      simp only [Trap.receives, Trap.shown, Array.appendList_nil]
      rfl
    | cons key keys =>
      simp only [Trap.receives, Trap.shown, Array.appendList_nil]
      rfl
  | prompt =>
    rw [Trap.run, bind_of_ok (Trap.calling_of_ok (writeBytes_eq _ _) rs)]
    cases keys with
    | nil =>
      simp only [Trap.receives, Trap.shown, Option.toList, List.append_nil]
      rfl
    | cons key keys =>
      have echoed : output ++ (asciiBytes "Enter a character: " ++ [key]) =
          (output ++ Trap.promptText).push key := by
        apply Array.toList_inj.1
        simp [Trap.promptText]
      simp only [Trap.receives, Trap.shown, Option.toList, echoed]
      rfl
  | out =>
    have pushed : output ++ [low (rs.get .r0)] = output.push (lowByte (rs.get .r0)) := by
      simp [lowByte_eq]
    simp only [Trap.receives, Trap.shown, pushed]
    rfl
  | puts =>
    rw [Trap.run, Trap.get_bind, writing_eq, stringAt_eq_text, funext lowByte_eq]
    rfl
  | putsp =>
    rw [Trap.run, Trap.get_bind, writing_eq, stringAt_eq_text, funext packedBytes_eq]
    rfl
  | halt => exact writing_eq Trap.haltText .halt rs _

section Routine
variable {mem : Memory} {v : TrapVector} {rs rs' : Registers} {b b' : Buffer}

/-- A routine that comes to its end has taken the key that it leaves in R0. -/
theorem buffer_of_run {o : Trap.Outcome} (h : Trap.run console mem v (rs, b) = .ok o (rs', b')) :
    let received := if Trap.receives v then some (low (rs'.get .r0)) else none
    b.keys = received.toList ++ b'.keys ∧
      b'.output = b.output ++ Trap.shown v mem (rs.get .r0) received := by
  rw [run_eq] at h
  cases hv : Trap.receives v with
  | false =>
    rw [hv] at h
    cases h
    exact ⟨rfl, rfl⟩
  | true =>
    cases hb : b.keys with
    | nil =>
      rw [hv, hb] at h
      cases h
    | cons key keys =>
      rw [hv, hb] at h
      cases h
      simp [low_toUInt16]

/-- A routine fails for want of a key. -/
theorem buffer_of_run_error {e : Error} (h : Trap.run console mem v (rs, b) = .error e (rs', b')) :
    b'.keys = b.keys ∧ b'.output = b.output ++ Trap.shown v mem (rs.get .r0) none := by
  rw [run_eq] at h
  cases hv : Trap.receives v with
  | false =>
    rw [hv] at h
    cases h
  | true =>
    cases hb : b.keys with
    | nil =>
      rw [hv, hb] at h
      cases h
      exact ⟨rfl, rfl⟩
    | cons key keys =>
      rw [hv, hb] at h
      cases h

end Routine

/-- No key is lost between what was there before and what is left, and nothing is written but what
the events say. -/
structure Conserved (b : Buffer) (evs : List Machine.Event) (b' : Buffer) : Prop where
  keys : b.keys = evs.flatMap Machine.Event.keys ++ b'.keys
  output : b'.output.toList = b.output.toList ++ evs.flatMap Machine.Event.written

theorem Conserved.append {b b₁ b' : Buffer} {evs evs' : List Machine.Event}
    (h : Conserved b evs b₁) (h' : Conserved b₁ evs' b') : Conserved b (evs ++ evs') b' where
  keys := by rw [h.keys, h'.keys, List.flatMap_append, List.append_assoc]
  output := by rw [h'.output, h.output, List.flatMap_append, List.append_assoc]

section Step
variable {m m' : Machine} {b b' : Buffer}

/-- Where there is no trap, only a read of the status takes a key. -/
theorem conserved_of_asked {e : Machine.Event} (received : e.received = none)
    (silent : e.trap? = none) (h : Machine.Asked console b e.reads e.after.mem b') :
    Conserved b [e] b' := by
  have written : e.written = [] := by rw [Machine.Event.written, silent]
  have keys : e.keys = e.latched.toList := by
    rw [Machine.Event.keys, received]
    exact List.append_nil _
  rw [Machine.Asked] at h
  split at h
  next status =>
    obtain ⟨key, polled, answer, data⟩ := h
    cases (pollKey_eq b).symm.trans polled
    have latched : e.latched = b.keys.head? := by
      rw [Machine.Event.latched, answer]
      cases first : b.keys.head? with
      | none => exact if_neg fun latch => absurd latch.2 (by decide)
      | some key => rw [if_pos ⟨status, rfl⟩, data key first, low_toUInt16]
    constructor
    · cases hb : b.keys <;> simp [keys, latched, hb]
    · simp [written]
  next other =>
    subst h
    constructor
    · simp [keys, Machine.Event.latched_of_notMem other]
    · simp [written]

private theorem r0_of_link (m : Machine) :
    (m.regs.advance.set .r7 (m.regs.pc + 1)).get .r0 = m.regs.get .r0 := by
  rw [Registers.get_set_of_ne (by decide), Registers.get_advance]

theorem conserved_of_step {i : Instruction Reg}
    (h : Machine.step console (m, b) = .ok i (m', b')) : Conserved b [⟨m, .ok i, m'⟩] b' := by
  cases i with
  | trap v =>
    obtain ⟨hpc, o, regs, served, rfl⟩ := Machine.step_trap_eq_ok h
    obtain ⟨keys, output⟩ := buffer_of_run served
    constructor
    · simp [Machine.Event.keys, Machine.Event.latched_of_trap hpc, Machine.Event.received, keys]
    · simp [Machine.Event.written, Machine.Event.trap?, Machine.Event.received, output, r0_of_link]
  | _ => exact conserved_of_asked rfl rfl (Machine.asked_of_step h nofun)

theorem conserved_of_step_error {e : Machine.Error}
    (h : Machine.step console (m, b) = .error e (m', b')) : Conserved b [⟨m, .error e, m'⟩] b' := by
  cases e with
  | notRunning state =>
    cases Machine.step_eq_error h with
    | stopped stopped =>
      apply conserved_of_asked rfl rfl
      rw [Machine.Event.reads, if_neg stopped]
      exact rfl
  | fault pc word cause =>
    cases Machine.step_eq_error h with
    | decode running fetched =>
      apply conserved_of_asked rfl rfl
      rw [Machine.Event.reads, if_pos running]
      exact Machine.asked_of_read fetched
  | console e =>
    rcases Machine.step_eq_console_error h with polled | ⟨hpc, v, regs, hd, failed⟩
    · cases (pollKey_eq b).symm.trans polled
    · obtain ⟨keys, output⟩ := buffer_of_run_error failed
      have received : Machine.Event.received ⟨m, .error (.console e), m'⟩ = none := rfl
      constructor
      · simp [Machine.Event.keys, Machine.Event.latched_of_error hpc, received, keys]
      · simp [Machine.Event.written, Machine.Event.trap?, hd, received, output, r0_of_link]

end Step

theorem conserved_of_course {s s' : Machine × Buffer} {evs : List Machine.Event}
    (h : Course console s evs s') : Conserved s.2 evs s'.2 := by
  induction h with
  | nil => exact ⟨rfl, by simp⟩
  | done h _ ih => exact (conserved_of_step h).append ih
  | failed h _ ih => exact (conserved_of_step_error h).append ih

private theorem course_of_orders {orders : List Order} {s s' : Machine × Buffer}
    (left : orders.foldlM (fun s order => order.left? console s) s = some s') :
    ∃ evs, Course console s evs s' := by
  induction orders generalizing s with
  | nil =>
    cases left
    exact ⟨[], .nil⟩
  | cons order orders ih =>
    rw [List.foldlM_cons, Option.bind_eq_bind, Option.bind_eq_some_iff] at left
    obtain ⟨s₁, first, left⟩ := left
    obtain ⟨evs, course⟩ := Order.course_of_left? (fun _ => rfl) first
    obtain ⟨evs', later⟩ := ih left
    exact ⟨evs ++ evs', course.append later⟩

/-- Whatever is asked of a machine with a buffer, and as long as each call returns, the keys of the
buffer are those that the program got and those that are left, and its output has grown by what the
program wrote. This holds after the calls and at every point of the next, even if that never
returns. -/
theorem keys_and_output_conserved (m : Machine) (keys : List Byte) (output : Array Byte)
    (orders : List Order) {s : Machine × Buffer}
    (left : orders.foldlM (fun s order => order.left? console s) (m, ⟨keys, output⟩) = some s) :
    ∃ evs, Course console (m, ⟨keys, output⟩) evs s ∧ Conserved ⟨keys, output⟩ evs s.2 ∧
      ∀ (order : Order) evs' m' returned,
        (order.call console s.2).Trace s.1 evs' m' returned →
        ∃ b', Course console s evs' (m', b') ∧ Conserved ⟨keys, output⟩ (evs ++ evs') b' := by
  obtain ⟨evs, course⟩ := course_of_orders left
  have conserved := conserved_of_course course
  refine ⟨evs, course, conserved, fun order evs' m' returned trace => ?_⟩
  obtain ⟨b', later⟩ := Order.course_of_trace (fun _ => rfl) trace
  exact ⟨b', later, conserved.append (conserved_of_course later)⟩

/-- A program gets one key by asking for it and another by running into the keyboard. -/
theorem keys_and_output_conserved_of_two_keys :
    let m : Machine := {
      regs := { Registers.initial with pc := 0xFDFF }
      mem := Memory.set {} 0xFDFF 0xF020 }
    let start : Machine × Buffer := (m, ⟨[0x41, 0x42, 0x43], #[]⟩)
    ∃ evs s, Course console start evs s ∧ s.1.state = .faulted ∧
      evs.flatMap Machine.Event.keys = [0x41, 0x42] ∧ s.2.keys = [0x43] := by
  intro m start
  have hm : Memory.read console m.regs.pc (m.mem, start.2) = .ok 0xF020 (m.mem, start.2) := by
    change Memory.read console 0xFDFF _ = _
    rw [Memory.read_of_ne (by decide), Memory.peek_set, if_pos rfl]
  have hd : Instruction.decode 0xF020 = .ok (.trap .getc) := by cbv
  let m₁ : Machine := { m.fetched m.mem with
    regs := (m.regs.advance.set .r7 0xFE00).setFlagged .r0 0x41, cycles := 1 }
  have first : Machine.step console start = .ok (.trap .getc) (m₁, ⟨[0x42, 0x43], #[]⟩) :=
    Machine.step_of_execute rfl hm hd rfl
  have hm₁ : Memory.read console m₁.regs.pc (m₁.mem, ⟨[0x42, 0x43], #[]⟩) =
      .ok (Memory.statusOf (some 0x42)) (m₁.mem.latch (some 0x42), ⟨[0x43], #[]⟩) :=
    Memory.read_status_of_ok rfl m₁.mem
  have second := Machine.step_of_decode_error (m := m₁) rfl hm₁ (Machine.decode_status_some 0x42)
  have left : [Order.step, Order.step].foldlM (fun s order => order.left? console s) start =
      some ({ m₁.fetched (m₁.mem.latch (some 0x42)) with state := .faulted }, ⟨[0x43], #[]⟩) := by
    simp only [List.foldlM_cons, List.foldlM_nil, Order.left?, Option.bind_eq_bind,
      Option.bind_some, first, stateLeft, second]
    rfl
  obtain ⟨evs, course, conserved, -⟩ := keys_and_output_conserved m _ _ _ left
  refine ⟨evs, _, course, rfl, ?_, rfl⟩
  exact (List.append_cancel_right conserved.keys).symm

end Console.Buffer

end LittleComputer
