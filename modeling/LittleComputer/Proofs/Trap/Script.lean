import LittleComputer.Proofs.Console.Journal
import LittleComputer.Proofs.Machine.Refinement
import LittleComputer.Proofs.Trap.Calls

/-! The service routines as scripts. Each makes its console calls in a fixed order, and only the key
that one receives decides what it goes on to write. -/
namespace LittleComputer.Trap
open Console (Call Entry Error Follows Journaled OneKey)
open OpcodeTable (low high text lowByte_eq packedBytes_eq stringAt_eq_text)
variable {κ α : Type}

/-- The prompt, "Enter a character: ". -/
def promptBytes : List Byte :=
  [0x45, 0x6E, 0x74, 0x65, 0x72, 0x20, 0x61, 0x20, 0x63, 0x68, 0x61, 0x72, 0x61, 0x63, 0x74, 0x65,
    0x72, 0x3A, 0x20]

/-- The notice "HALT" with a line feed. -/
def haltBytes : List Byte := [0x48, 0x41, 0x4C, 0x54, 0x0A]

/-- The calls of a routine, given what it finds in R0 and the key that it may receive. -/
def script (mem : Memory) (r0 : Word) (key : Byte) : TrapVector → List Call
  | .getc => [.readKey, .flush]
  | .out => [.writeByte (low r0), .flush]
  | .puts => ((text mem r0).map low).map .writeByte ++ [.flush]
  | .prompt => promptBytes.map .writeByte ++ [.flush, .readKey, .writeByte key, .flush]
  | .putsp =>
    ((text mem r0).flatMap fun w => if high w = 0 then [low w] else [low w, high w]).map
      .writeByte ++ [.flush]
  | .halt => haltBytes.map .writeByte ++ [.flush]

theorem promptBytes_eq : promptBytes = promptText := by decide

theorem haltBytes_eq : haltBytes = haltText := by decide

/-- A routine comes to read `key`, and leaves the console as `c'` when it has. -/
def Reads {σ : Type} (con : Console σ) (c : σ) (key : Byte) (c' : σ) : TrapVector → Prop
  | .getc => con.readKey c = .ok key c'
  | .prompt => asking con c = .ok key c'
  | .out | .puts | .putsp | .halt => False

private theorem oneKey_writing (bytes : List Byte) {rest : List Call} (h : OneKey rest) :
    OneKey (bytes.map .writeByte ++ rest) where
  keys := by
    have silent : (bytes.map Call.writeByte).countP Call.asksForKey = 0 := by
      simp [List.countP_eq_zero, Call.asksForKey]
    rw [List.countP_append, silent, Nat.zero_add]
    exact h.keys
  unpumped := by simp [h.unpumped]

theorem oneKey_script (mem : Memory) (r0 : Word) (key : Byte) (v : TrapVector) :
    OneKey (script mem r0 key v) := by
  have flush : OneKey [.flush] := ⟨by decide, by decide⟩
  cases v with
  | getc =>
    rw [script]
    exact ⟨by decide, by decide⟩
  | out => exact oneKey_writing [_] flush
  | puts | putsp | halt => exact oneKey_writing _ flush
  | prompt =>
    apply oneKey_writing
    exact ⟨by simp [List.countP_cons, Call.asksForKey], by simp⟩

/-- The journal beside the registers. -/
abbrev journal (s : Registers × Cancellable (Journaled κ)) : List Entry := s.2.calls

theorem calling_follows {x : EStateM Error (Cancellable (Journaled κ)) α} {script : List Call}
    {v : Cancellable (Journaled κ)} (h : Follows Cancellable.calls x v script) (rs : Registers) :
    Follows journal (calling x) (rs, v) script := by
  obtain ⟨new, journaled, plays⟩ := h
  refine ⟨new, ?_⟩
  rw [calling]
  cases hx : x v <;> rw [hx] at journaled plays <;> exact ⟨journaled, plays⟩

variable (con : Console (Cancellable κ))

/-- The last flush of a routine, which then gives its outcome. -/
private theorem flush_follows (o : Outcome) (s : Registers × Cancellable (Journaled κ)) :
    Follows journal (do calling con.journaled.flush; return o) s [.flush] :=
  (calling_follows (Console.noting_follows s.2 .flush _) s.1).bind fun _ _ _ => .pure o

private theorem writing_follows (bytes : List Byte) (o : Outcome) (rs : Registers)
    (v : Cancellable (Journaled κ)) :
    Follows journal
      (do calling (con.journaled.writeBytes bytes); calling con.journaled.flush; return o)
      (rs, v) (bytes.map .writeByte ++ [.flush]) :=
  (calling_follows (Console.writeBytes_follows con v bytes) rs).bind fun _ s _ =>
    flush_follows con o s

/-- A key that has been read goes to R0 in silence, and then there is only the flush. -/
private theorem receive_follows (key : Byte) (s : Registers × Cancellable (Journaled κ)) :
    Follows journal (do receive key; calling con.journaled.flush; return Outcome.resume) s
      [.flush] := by
  have received : Follows journal (receive key) s [] := .silent rfl rfl
  exact received.bind fun _ s' _ => flush_follows con .resume s'

private theorem asking_follows (w : Cancellable (Journaled κ)) :
    Follows Cancellable.calls (asking con.journaled) w
      (promptBytes.map .writeByte ++ [.flush, .readKey]) := by
  rw [promptBytes_eq]
  have written := Console.writeBytes_follows con w promptText
  refine written.bind fun _ w₁ _ => ?_
  have flushed := Console.noting_follows w₁ .flush con.flush
  exact flushed.bind fun _ w₂ _ => Console.noting_follows w₂ .readKey con.readKey

/-- Every routine follows its script, in which a key that it has read stands where it shows it. -/
theorem run_follows (mem : Memory) (v : TrapVector) (rs : Registers)
    (w : Cancellable (Journaled κ)) :
    ∃ key, (∀ k w', Reads con.journaled w k w' v → k = key) ∧
      Follows journal (run con.journaled mem v) (rs, w) (script mem (rs.get .r0) key v) := by
  cases v with
  | getc =>
    have read := calling_follows (Console.noting_follows w .readKey con.readKey) rs
    obtain ⟨key, given, follows⟩ :=
      read.bind_given (fun _ => [.flush]) fun key s _ => receive_follows con key s
    exact ⟨key, fun k w' reads => given k _ (calling_of_ok reads rs), follows⟩
  | prompt =>
    have asked := calling_follows (asking_follows con w) rs
    have shown (key : Byte) (s : Registers × Cancellable (Journaled κ)) :
        Follows journal (do
          calling (con.journaled.writeByte key)
          receive key
          calling con.journaled.flush
          return Outcome.resume) s ([.writeByte key] ++ [.flush]) :=
      (calling_follows (Console.noting_follows s.2 (.writeByte key) _) s.1).bind fun _ s' _ =>
        receive_follows con key s'
    obtain ⟨key, given, follows⟩ :=
      asked.bind_given (fun key => [.writeByte key, .flush]) fun key s _ => shown key s
    rw [← run_prompt, List.append_assoc] at follows
    exact ⟨key, fun k w' reads => given k _ (calling_of_ok reads rs), follows⟩
  | out =>
    have written := calling_follows (Console.noting_follows w (.writeByte (lowByte (rs.get .r0)))
      (con.writeByte (lowByte (rs.get .r0)))) rs
    refine ⟨0, fun _ _ => False.elim, ?_⟩
    rw [script, ← lowByte_eq]
    exact written.bind fun _ s _ => flush_follows con .resume s
  | puts =>
    refine ⟨0, fun _ _ => False.elim, ?_⟩
    rw [script, ← stringAt_eq_text, ← funext lowByte_eq, run, Follows, get_bind]
    exact writing_follows con _ .resume rs w
  | putsp =>
    refine ⟨0, fun _ _ => False.elim, ?_⟩
    rw [script, ← stringAt_eq_text, ← funext packedBytes_eq, run, Follows, get_bind]
    exact writing_follows con _ .resume rs w
  | halt =>
    refine ⟨0, fun _ _ => False.elim, ?_⟩
    rw [script, haltBytes_eq]
    exact writing_follows con haltText .halt rs w

end LittleComputer.Trap
