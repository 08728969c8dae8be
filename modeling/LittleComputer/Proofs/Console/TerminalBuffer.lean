import LittleComputer.Console.Buffer
import LittleComputer.Proofs.Console.Terminal
import LittleComputer.Proofs.Machine.ConsoleCalls

/-! A terminal against a buffer. With all events waiting and no interruption among them a terminal is
as good as a buffer that holds their keys, wherever a run makes it look at the events early. Only
its output is longer, by a carriage return before each line feed. -/
namespace LittleComputer.Console
open Machine (Answer Operation perform? transcript)

/-- What a buffer says to a read with no key left. -/
def Buffer.outOfKeys : Error := ⟨.unexpectedEof, "no more scripted input"⟩

/-- Something asked of a machine has ended in such a read. -/
def Buffer.Starved (r : EStateM.Result Machine.Error (Machine × Buffer) Answer) : Prop :=
  ∃ s, r = .error (.console outOfKeys) s

namespace Terminal

/-- The bytes that a terminal is sent for one that is written. -/
def sent (b : Byte) : List Byte := if b = 0x0A then [0x0D, 0x0A] else [b]

/-- A terminal does as a buffer: its queue and the events that wait hold the keys that the buffer
has left, nothing asks to stop, and it has been sent what the buffer has taken. -/
structure Mimics (t : Cancellable Terminal) (b : Buffer) : Prop where
  keys : t.console.pending ++ t.console.waiting.filterMap Event.byte? = b.keys
  uninterrupted : ∀ e ∈ t.console.waiting, e.interrupts = false
  lowered : t.cancelled = false
  output : t.console.output.toList = b.output.toList.flatMap sent

/-- All that tells the two consoles apart: with no key left the terminal waits for one. -/
def OutOfKeys (e e' : Error) : Prop := e = blockedError ∧ e' = Buffer.outOfKeys

theorem interruption_iff (e e' : Error) (h : OutOfKeys e e') :
    e.kind = .interrupted ↔ e'.kind = .interrupted := by
  obtain ⟨rfl, rfl⟩ := h
  decide

section
variable {waiting : List Event} {pending keys : List Byte} {output output' : Array Byte}

/-- Looking at all events moves their keys to the queue and does nothing else. -/
theorem drained_of_mimics (h : Mimics ⟨⟨waiting, pending, output⟩, false⟩ ⟨keys, output'⟩) :
    drained ⟨⟨waiting, pending, output⟩, false⟩ = ⟨⟨[], keys, output⟩, false⟩ := by
  have calm : waiting.any Event.interrupts = false := by simpa using h.uninterrupted
  have queue : pending ++ waiting.filterMap Event.byte? = keys := h.keys
  rw [drained, queue, calm]
  rfl

theorem mimics_of_drained (same : output.toList = output'.toList.flatMap sent) (keys : List Byte) :
    Mimics ⟨⟨[], keys, output⟩, false⟩ ⟨keys, output'⟩ where
  keys := List.append_nil keys
  uninterrupted := List.forall_mem_nil _
  lowered := rfl
  output := same

/-- Waiting for a key finds the first one among the events. -/
theorem await_matches (uninterrupted : ∀ e ∈ waiting, e.interrupts = false)
    (same : output.toList = output'.toList.flatMap sent) :
    Matches OutOfKeys Mimics (await output waiting)
      (Buffer.console.readKey ⟨waiting.filterMap Event.byte?, output'⟩) := by
  induction waiting with
  | nil => exact .error ⟨rfl, rfl⟩ (mimics_of_drained same [])
  | cons e waiting ih =>
    have later := List.forall_mem_of_forall_mem_cons uninterrupted
    rw [await, if_neg (by simp [uninterrupted e List.mem_cons_self])]
    cases byte : e.byte? with
    | none =>
      rw [List.filterMap_cons_none byte]
      exact ih later
    | some key =>
      rw [List.filterMap_cons_some byte]
      exact .ok key ⟨rfl, later, rfl, same⟩

end

/-- Every call does the same on a terminal as on a buffer, until there are no more keys. -/
theorem mirrors_buffer : Terminal.console.Mirrors OutOfKeys Mimics Buffer.console where
  pollKey := by
    rintro ⟨⟨waiting, pending, output⟩, flag⟩ ⟨keys, output'⟩ h
    obtain rfl : flag = false := h.lowered
    rw [pollKey_eq, drained_of_mimics h]
    cases keys with
    | nil => exact .ok none (mimics_of_drained h.output [])
    | cons key keys => exact .ok (some key) (mimics_of_drained h.output keys)
  readKey := by
    rintro ⟨⟨waiting, pending, output⟩, flag⟩ ⟨keys, output'⟩ h
    obtain rfl : flag = false := h.lowered
    obtain rfl : pending ++ waiting.filterMap Event.byte? = keys := h.keys
    cases pending with
    | nil => exact await_matches h.uninterrupted h.output
    | cons key pending => exact .ok key ⟨rfl, h.uninterrupted, rfl, h.output⟩
  writeByte b := by
    rintro ⟨⟨waiting, pending, output⟩, flag⟩ ⟨keys, output'⟩ h
    refine .ok () ⟨h.keys, h.uninterrupted, h.lowered, ?_⟩
    have output := h.output
    simp only at output
    by_cases feed : b = 0x0A <;> simp [feed, output, sent]
  flush := .pure ()
  pump := by
    rintro ⟨⟨waiting, pending, output⟩, flag⟩ ⟨keys, output'⟩ h
    obtain rfl : flag = false := h.lowered
    rw [pump_eq, drained_of_mimics h]
    exact .ok () (mimics_of_drained h.output keys)

/-- What may be asked of a machine on a terminal. A run that can be cancelled looks at a flag of
its own, or at the one that the terminal raises. -/
inductive Command where
  | operation (op : Operation)
  | runUntilInterrupted (budget : Option UInt64)

namespace Command

/-- The result of a command, if it comes to an end. -/
def reply? (s : Machine × Cancellable Terminal) :
    Command → Option (EStateM.Result Machine.Error (Machine × Cancellable Terminal) Answer)
  | operation op => perform? Terminal.console s op
  | runUntilInterrupted budget =>
    (Machine.runUntil? Terminal.console budget s).map Machine.Ending.reply

/-- The same asked of a machine on a buffer, which raises no flag. -/
def onBuffer : Command → Operation
  | operation op => op
  | runUntilInterrupted budget => .runUntil budget false

/-- The results of commands one after another, up to one that comes to no end. -/
def replies : List Command → Machine × Cancellable Terminal →
    List (EStateM.Result Machine.Error (Machine × Cancellable Terminal) Answer)
  | [], _ => []
  | command :: commands, s =>
    match command.reply? s with
    | none => []
    | some r => r :: replies commands (stateLeft r)

end Command

/-- A command comes to an end on a terminal just if it does on a buffer, and gives the same. -/
theorem reply?_parallel {s : Machine × Cancellable Terminal} {t : Machine × Buffer}
    (states : Beside Mimics s t) (command : Command) :
    (command.reply? s).Rel (Matches (Machine.Error.Matches OutOfKeys) (Beside Mimics))
      (perform? Buffer.console t command.onBuffer) := by
  cases command with
  | operation op => exact Machine.perform?_parallel mirrors_buffer interruption_iff states op
  | runUntilInterrupted budget =>
    have lowered : Beside (fun t w => Mimics t w.console ∧ w.cancelled = false) s
        (t.1, (⟨t.2, false⟩ : Cancellable Buffer)) := ⟨states.1, states.2, rfl⟩
    have flags (w : Cancellable Terminal) (v : Cancellable Buffer)
        (h : Mimics w v.console ∧ v.cancelled = false) : w.cancelled = v.cancelled :=
      h.1.lowered.trans h.2.symm
    exact (Machine.runUntil?_parallel mirrors_buffer.beside_lowered flags interruption_iff budget
      lowered).map fun _ _ h => Machine.told_matches ⟨h.machine, h.console.1⟩ h.result

/-- Where the buffer has not run out of keys there is no difference in the results. -/
private theorem matches_of_fed
    {r : EStateM.Result Machine.Error (Machine × Cancellable Terminal) Answer}
    {r' : EStateM.Result Machine.Error (Machine × Buffer) Answer}
    (h : Matches (Machine.Error.Matches OutOfKeys) (Beside Mimics) r r')
    (fed : ¬ Buffer.Starved r') : Matches Eq (Beside Mimics) r r' := by
  cases h with
  | ok a states => exact .ok a states
  | error errors states =>
    cases errors with
    | notRunning | fault => exact .error rfl states
    | console causes =>
      obtain ⟨-, rfl⟩ := causes
      exact absurd ⟨_, rfl⟩ fed

private theorem replies_match {s : Machine × Cancellable Terminal} {t : Machine × Buffer}
    (states : Beside Mimics s t) {commands : List Command}
    (fed : ∀ r ∈ transcript Buffer.console (commands.map Command.onBuffer) t,
      ¬ Buffer.Starved r) :
    List.Forall₂ (Matches Eq (Beside Mimics)) (Command.replies commands s)
      (transcript Buffer.console (commands.map Command.onBuffer) t) := by
  induction commands generalizing s t with
  | nil => exact .nil
  | cons command commands ih =>
    have replied := reply?_parallel states command
    simp only [List.map_cons, transcript, Command.replies] at fed ⊢
    generalize command.reply? s = r, perform? Buffer.console t command.onBuffer = r' at fed replied
    cases replied with
    | none => exact .nil
    | some matched =>
      obtain ⟨now, later⟩ := List.forall_mem_cons.1 fed
      exact .cons (matches_of_fed matched now) (ih matched.states later)

/-- No commands tell a terminal, at which events without an interruption wait, from a buffer that
holds the keys of these events, as long as none reads when no key is left. Each gives the same on
both and leaves the same machine and the same keys to come. What the terminal has been sent is the
output of the buffer with a carriage return put before each line feed. -/
theorem replies_match_buffer (m : Machine) {events : List Event} {keys : List Byte}
    (uninterrupted : ∀ e ∈ events, e.interrupts = false)
    (translated : events.filterMap Event.byte? = keys) (commands : List Command)
    (fed : ∀ r ∈ transcript Buffer.console (commands.map Command.onBuffer) (m, { keys }),
      ¬ Buffer.Starved r) :
    List.Forall₂ (Matches Eq (Beside Mimics))
      (Command.replies commands (m, ⟨{ waiting := events }, false⟩))
      (transcript Buffer.console (commands.map Command.onBuffer) (m, { keys })) :=
  have start : Mimics ⟨{ waiting := events }, false⟩ { keys } :=
    ⟨translated, uninterrupted, rfl, rfl⟩
  replies_match ⟨rfl, start⟩ fed

/-- A key is read, a run that stops at once has the terminal look at the rest, and a line feed is
written before the last key is polled. -/
theorem replies_match_buffer_of_two_keys :
    let events : List Event :=
      [.key (.char 'h') false .press, .key (.char 'h') false .release, .notKey,
        .key .enter false .press]
    let commands : List Command :=
      [.operation .step, .runUntilInterrupted (some 0), .operation (.writeByte 0x0A),
        .operation .pollKey]
    let m : Machine := { mem := Memory.set {} startAddress 0xF020 }
    ∃ m', transcript Buffer.console (commands.map Command.onBuffer) (m, { keys := [0x68, 0x0A] }) =
        [.ok (.instruction (.trap .getc)) (m', { keys := [0x0A] }),
          .ok (.summary ⟨0, .cycleLimit⟩) (m', { keys := [0x0A] }),
          .ok .done (m', { keys := [0x0A], output := #[0x0A] }),
          .ok (.polled (some 0x0A)) (m', { output := #[0x0A] })] ∧
      List.Forall₂ (Matches Eq (Beside Mimics))
        (Command.replies commands (m, ⟨{ waiting := events }, false⟩))
        (transcript Buffer.console (commands.map Command.onBuffer)
          (m, { keys := [0x68, 0x0A] })) := by
  intro events commands m
  let b : Buffer := { keys := [0x68, 0x0A] }
  have hm : Memory.read Buffer.console m.regs.pc (m.mem, b) = .ok 0xF020 (m.mem, b) :=
    Memory.read_set (a := startAddress) (by decide) _ {} 0xF020 b
  have hd : Instruction.decode 0xF020 = .ok (.trap .getc) := by cbv
  obtain ⟨m', hs, running, count⟩ : ∃ m', Machine.step Buffer.console (m, b) =
      .ok (.trap .getc) (m', { keys := [0x0A] }) ∧ m'.state = .running ∧ m'.cycles = 1 :=
    ⟨_, Machine.step_of_execute rfl hm hd rfl, rfl, rfl⟩
  have read : perform? Buffer.console (m, b) .step =
      some (.ok (.instruction (.trap .getc)) (m', { keys := [0x0A] })) :=
    congrArg (fun r => some (Machine.answering .instruction r)) hs
  have stopped : Machine.runUntil? Buffer.console.beside (some 0) (m', ⟨{ keys := [0x0A] }, false⟩) =
      some ⟨m', ⟨{ keys := [0x0A] }, false⟩, (), .ok ⟨0, .cycleLimit⟩⟩ := by
    let w : Cancellable Buffer := ⟨{ keys := [0x0A] }, false⟩
    have spent : (some (Machine.limitFrom m'.cycles 0)).any (· ≤ m'.cycles) = true := by
      rw [count]
      decide
    have stop : Machine.checkpoint Buffer.console.beside (m'.cycles - m'.cycles)
        (some (Machine.limitFrom m'.cycles 0)) m' w = .stop (.ok .cycleLimit) w :=
      (Machine.checkpoint_eq_stop rfl).2 ⟨rfl, .inr (.inr ⟨running, rfl, spent, rfl⟩)⟩
    refine (Machine.watchFrom?_of_stop stop).trans ?_
    rw [UInt64.sub_self]
    rfl
  have looked : perform? Buffer.console (m', { keys := [0x0A] }) (.runUntil (some 0) false) =
      some (.ok (.summary ⟨0, .cycleLimit⟩) (m', { keys := [0x0A] })) :=
    congrArg (Option.map Machine.Ending.answer) stopped
  have ran : transcript Buffer.console (commands.map Command.onBuffer) (m, b) =
      [.ok (.instruction (.trap .getc)) (m', { keys := [0x0A] }),
        .ok (.summary ⟨0, .cycleLimit⟩) (m', { keys := [0x0A] }),
        .ok .done (m', { keys := [0x0A], output := #[0x0A] }),
        .ok (.polled (some 0x0A)) (m', { output := #[0x0A] })] := by
    refine (Machine.transcript_cons read _).trans (congrArg (List.cons _) ?_)
    exact Machine.transcript_cons looked _
  have uninterrupted : ∀ e ∈ events, e.interrupts = false := by simp [events, Event.interrupts]
  have translated : events.filterMap Event.byte? = b.keys := rfl
  refine ⟨m', ran, replies_match_buffer m uninterrupted translated commands ?_⟩
  intro r hr
  rw [ran] at hr
  rintro ⟨s, rfl⟩
  simp at hr

end Terminal

end LittleComputer.Console
