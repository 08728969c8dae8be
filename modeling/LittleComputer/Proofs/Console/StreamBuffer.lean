import LittleComputer.Console.Buffer
import LittleComputer.Console.Stream
import LittleComputer.Proofs.Machine.Transcript

/-! Byte streams against a buffer. A reader that yields some bytes and then nothing is as good as a
buffer that holds them, however often it is interrupted, and so is a writer that takes every byte
in the end. -/
namespace LittleComputer.Console

/-- All that tells the two consoles apart: what they say when there are no more keys. -/
def OutOfKeys (e e' : Error) : Prop :=
  e = ⟨.unexpectedEof, "end of input"⟩ ∧ e' = ⟨.unexpectedEof, "no more scripted input"⟩

namespace Stream

/-- With these answers a reader yields these bytes and then nothing more. It may be interrupted
at any time. -/
inductive Yields : List ReadAnswer → List Byte → Prop
  | silent : Yields [] []
  | byte (b : Byte) {reads : List ReadAnswer} {keys : List Byte} (rest : Yields reads keys) :
      Yields (.byte b :: reads) (b :: keys)
  | interrupted {e : Error} {reads : List ReadAnswer} {keys : List Byte}
      (kind : e.kind = .interrupted) (rest : Yields reads keys) : Yields (.fail e :: reads) keys
  | endOfInput {reads : List ReadAnswer} (rest : Yields reads []) :
      Yields (.endOfInput :: reads) []

/-- An answer of a writer that takes the byte, if not at once. -/
def Willing (answer : WriteAnswer) : Prop :=
  answer = .accept ∨ ∃ e, answer = .fail e ∧ e.kind = .interrupted

/-- A stream does as a buffer: it will yield the keys that the buffer has left, it will take what
is written to it, and it has the same output. -/
structure Mimics (s : Stream) (b : Buffer) : Prop where
  reads : Yields s.reads b.keys
  writes : ∀ answer ∈ s.writes, Willing answer
  flushes : ∀ answer ∈ s.flushes, answer = none
  output : s.output = b.output

/-- Reading delivers the first of the bytes and leaves the others. -/
theorem nextByte_of_yields {reads : List ReadAnswer} {keys : List Byte} (h : Yields reads keys) :
    ∃ rest, nextByte reads = (.ok keys.head?, rest) ∧ Yields rest keys.tail := by
  induction h with
  | silent => exact ⟨_, rfl, .silent⟩
  | byte b rest => exact ⟨_, rfl, rest⟩
  | interrupted kind _ ih =>
    rw [nextByte, if_pos kind]
    exact ih
  | endOfInput rest => exact ⟨_, rfl, rest⟩

theorem accepted_of_willing {writes : List WriteAnswer} (h : ∀ answer ∈ writes, Willing answer) :
    ∃ rest, accepted writes = (.ok (), rest) ∧ ∀ answer ∈ rest, Willing answer := by
  induction writes with
  | nil => exact ⟨_, rfl, h⟩
  | cons answer writes ih =>
    have later := List.forall_mem_of_forall_mem_cons h
    obtain rfl | ⟨e, rfl, kind⟩ := h answer List.mem_cons_self
    · exact ⟨_, rfl, later⟩
    · rw [accepted, if_pos kind]
      exact ih later

theorem next_parallel : Parallel OutOfKeys Mimics next Buffer.next := by
  rintro ⟨reads, writes, flushes, output⟩ ⟨keys, _⟩ ⟨yields, willing, flushing, rfl⟩
  obtain ⟨rest, read, yields'⟩ := nextByte_of_yields yields
  simp only [next, read]
  cases keys with
  | nil => exact .ok _ ⟨yields', willing, flushing, rfl⟩
  | cons key keys => exact .ok _ ⟨yields', willing, flushing, rfl⟩

theorem mirrors_buffer : Stream.console.Mirrors OutOfKeys Mimics Buffer.console where
  pollKey := next_parallel
  readKey := by
    refine .bind next_parallel fun key => ?_
    cases key with
    | none => exact .throw ⟨rfl, rfl⟩
    | some key => exact .pure key
  writeByte b := by
    rintro ⟨reads, writes, flushes, output⟩ ⟨keys, _⟩ ⟨yields, willing, flushing, rfl⟩
    obtain ⟨rest, written, willing'⟩ := accepted_of_willing willing
    simp only [console, written]
    exact .ok () ⟨yields, willing', flushing, rfl⟩
  flush := by
    rintro ⟨reads, writes, flushes, output⟩ ⟨keys, _⟩ ⟨yields, willing, flushing, rfl⟩
    cases flushes with
    | nil => exact .ok () ⟨yields, willing, flushing, rfl⟩
    | cons answer flushes =>
      cases flushing answer List.mem_cons_self
      exact .ok () ⟨yields, willing, List.forall_mem_of_forall_mem_cons flushing, rfl⟩
  pump := .pure ()

/-- No operations tell a stream from a buffer with the keys that its reader yields. Each gives the
same on both, up to the words for the end of the keys, and leaves the same machine, the same output
and the same keys still to come. An operation that comes to an end makes finitely many calls, so
lists of answers stand for any devices. -/
theorem transcript_matches_buffer {reads : List ReadAnswer} {keys : List Byte}
    {writes : List WriteAnswer} {flushes : List (Option Error)} (yields : Yields reads keys)
    (willing : ∀ answer ∈ writes, Willing answer) (flushing : ∀ answer ∈ flushes, answer = none)
    (m : Machine) (ops : List Machine.Operation) :
    List.Forall₂ (Matches (Machine.Error.Matches OutOfKeys) (Beside Mimics))
      (Machine.transcript Stream.console ops (m, { reads, writes, flushes }))
      (Machine.transcript Buffer.console ops (m, { keys })) := by
  have kinds (e e' : Error) (h : OutOfKeys e e') : e.kind = e'.kind := by rw [h.1, h.2]
  exact Machine.transcript_parallel mirrors_buffer kinds ⟨rfl, yields, willing, flushing, rfl⟩ ops

/-- One key among interruptions is read once, and then there are none. -/
theorem transcript_matches_buffer_of_interrupted_key :
    let interruption : Error := ⟨.interrupted, "interrupted system call"⟩
    let reads : List ReadAnswer :=
      [.fail interruption, .byte 0x41, .fail interruption, .fail interruption, .endOfInput]
    let writes : List WriteAnswer := [.fail interruption, .accept, .fail interruption]
    let ops : List Machine.Operation := [.readKey, .writeByte 0x42, .pollKey, .readKey]
    let m : Machine := .initial
    Machine.transcript Buffer.console ops (m, { keys := [0x41] }) =
        [.ok (.key 0x41) (m, {}), .ok .done (m, { output := #[0x42] }),
          .ok (.polled none) (m, { output := #[0x42] }),
          .error (.console ⟨.unexpectedEof, "no more scripted input"⟩)
            (m, { output := #[0x42] })] ∧
      List.Forall₂ (Matches (Machine.Error.Matches OutOfKeys) (Beside Mimics))
        (Machine.transcript Stream.console ops (m, { reads, writes, flushes := [none] }))
        (Machine.transcript Buffer.console ops (m, { keys := [0x41] })) := by
  intro interruption reads writes ops m
  have yields : Yields reads [0x41] :=
    .interrupted rfl (.byte _ (.interrupted rfl (.interrupted rfl (.endOfInput .silent))))
  have willing : ∀ answer ∈ writes, Willing answer := by
    simp [writes, Willing, interruption]
  exact ⟨rfl, transcript_matches_buffer yields willing (by simp) m ops⟩

end Stream

end LittleComputer.Console
