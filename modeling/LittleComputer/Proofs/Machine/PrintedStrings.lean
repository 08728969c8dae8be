import LittleComputer.Console.Buffer
import LittleComputer.Proofs.Machine.Refinement
import LittleComputer.Proofs.Machine.Services
import LittleComputer.Proofs.Memory.Strings
import LittleComputer.Proofs.Trap.Packing

/-! The services that write strings. On a console that takes every byte they write the words from an
address on up to the first zero, plain or unpacked, and do nothing else. -/
namespace LittleComputer
open Console (Entry)
open OpcodeTable (low high lowByte_eq packedBytes_eq stringAt_eq_text)
variable {σ κ : Type}

/-- Every byte can be written and every flush succeeds. -/
structure Console.Accepting (con : Console σ) : Prop where
  writeByte : ∀ b c, ∃ c', con.writeByte b c = .ok () c'
  flush : ∀ c, ∃ c', con.flush c = .ok () c'

theorem Console.Accepting.writeBytes {con : Console σ} (accepting : con.Accepting)
    (bytes : List Byte) (c : σ) : ∃ c', con.writeBytes bytes c = .ok () c' := by
  induction bytes generalizing c with
  | nil => exact ⟨c, rfl⟩
  | cons b bytes ih =>
    obtain ⟨c₁, written⟩ := accepting.writeByte b c
    obtain ⟨c', rest⟩ := ih c₁
    exact ⟨c', (bind_of_ok written).trans rest⟩

theorem Console.Buffer.accepting : Console.Buffer.console.beside.Accepting where
  writeByte _ _ := ⟨_, rfl⟩
  flush _ := ⟨_, rfl⟩

namespace Trap

/-- The bytes that a routine writes from memory. -/
def stringBytes (mem : Memory) (a : Word) : TrapVector → List Byte
  | .puts => (mem.stringAt a).map lowByte
  | .putsp => (mem.stringAt a).flatMap packedBytes
  | .getc | .out | .prompt | .halt => []

/-- The routines that write strings. -/
def WritesString (v : TrapVector) : Prop := v = .puts ∨ v = .putsp

theorem run_of_writesString {v : TrapVector} (h : WritesString v) (con : Console σ) (mem : Memory)
    (rs : Registers) (c : σ) : run con mem v (rs, c) = (do
      calling (con.writeBytes (stringBytes mem (rs.get .r0) v))
      calling con.flush
      return .resume : EStateM Console.Error (Registers × σ) Outcome) (rs, c) := by
  rcases h with rfl | rfl <;> rfl

end Trap

namespace Machine

/-- The calls by which bytes are shown, all of which have succeeded. -/
def showing (bytes : List Byte) : List Entry :=
  (bytes.map fun b => ⟨.writeByte b, none⟩) ++ [⟨.flush, none⟩]

/-- A service writes these bytes and flushes. It makes no other call and leaves the machine as it
was. -/
def Shows (con : Console (Cancellable κ)) (v : TrapVector) (m : Machine) (w : Cancellable κ)
    (bytes : List Byte) : Prop :=
  ∃ w', serve con v (m, w) = .ok .resume (m, w') ∧
    serve con.journaled v (besideCalls [] (m, w)) =
      .ok .resume (besideCalls (showing bytes) (m, w'))

theorem shows_of_accepting {con : Console (Cancellable κ)} (accepting : con.Accepting)
    {v : TrapVector} (h : Trap.WritesString v) (m : Machine) (w : Cancellable κ) :
    Shows con v m w (Trap.stringBytes m.mem (m.regs.get .r0) v) := by
  obtain ⟨w₁, written⟩ := accepting.writeBytes (Trap.stringBytes m.mem (m.regs.get .r0) v) w
  obtain ⟨w', flushed⟩ := accepting.flush w₁
  have ran : Trap.run con m.mem v (m.regs, w) = .ok .resume (m.regs, w') := by
    rw [Trap.run_of_writesString h, bind_of_ok (Trap.calling_of_ok written _),
      bind_of_ok (Trap.calling_of_ok flushed _)]
    rfl
  have served : serve con v (m, w) = .ok .resume (m, w') := serve_eq_ok.2 ⟨_, ran, rfl⟩
  obtain ⟨key, calls, -, journaled, plays⟩ := serve_plays con v m w
  rw [served] at journaled plays
  have lines : Trap.script m.mem (m.regs.get .r0) key v =
      (Trap.stringBytes m.mem (m.regs.get .r0) v).map .writeByte ++ [.flush] := by
    rcases h with rfl | rfl
    · rw [Trap.script, Trap.stringBytes, stringAt_eq_text, funext lowByte_eq]
    · rw [Trap.script, Trap.stringBytes, stringAt_eq_text, funext packedBytes_eq]
  have all := plays.completed_iff.1 rfl
  rw [lines, List.map_append, List.map_map] at all
  subst all
  exact ⟨w', served, journaled⟩

/-- The string at an address ends before the first zero word, or has all 65536 words if there is
none. It is written word by word, plain as low bytes or unpacked, with no look at the keyboard, and
the machine stays as it was. -/
theorem strings_end_at_zero (mem : Memory) (a : Word) :
    ∃ n, (∀ k, mem.HasLength a k ↔ k = n) ∧
      mem.stringAt a = (List.range n).map (mem.wordAfter a) ∧
      ∀ {κ : Type} (con : Console (Cancellable κ)) (m : Machine) (w : Cancellable κ),
        con.Accepting → m.mem = mem → m.regs.get .r0 = a →
        Shows con .puts m w ((List.range n).map fun i => low (mem.wordAfter a i)) ∧
        Shows con .putsp m w ((List.range n).flatMap fun i =>
          let word := mem.wordAfter a i
          if high word = 0 then [low word] else [low word, high word]) := by
  have string := mem.stringAt_eq a
  refine ⟨mem.extent a, fun k => Memory.hasLength_iff, string, ?_⟩
  rintro κ con m w accepting rfl rfl
  constructor
  · have shows := shows_of_accepting accepting (.inl rfl) m w
    rw [Trap.stringBytes, string, List.map_map, funext lowByte_eq] at shows
    exact shows
  · have shows := shows_of_accepting accepting (.inr rfl) m w
    rw [Trap.stringBytes, string, List.flatMap_map, funext packedBytes_eq] at shows
    exact shows

/-- A string that goes round the end of memory. Its first word has a zero low byte. -/
theorem strings_end_at_zero_of_round_end :
    let mem := ((Memory.set {} 0xFFFF 0x4100).set 0 0x6261)
    let m : Machine := { mem, regs := Registers.initial.set .r0 0xFFFF }
    let w : Cancellable Console.Buffer := ⟨{ keys := [0x4B] }, false⟩
    mem.HasLength 0xFFFF 2 ∧
      Shows Console.Buffer.console.beside .puts m w [0x00, 0x61] ∧
      Shows Console.Buffer.console.beside .putsp m w [0x00, 0x41, 0x61, 0x62] := by
  intro mem m w
  have first : mem.wordAfter 0xFFFF 0 = 0x4100 := by
    rw [← Memory.peek_add, Memory.peek_set, Memory.peek_set]
    decide
  have second : mem.wordAfter 0xFFFF 1 = 0x6261 := by
    rw [← Memory.peek_add, Memory.peek_set]
    decide
  have behind : mem.wordAfter 0xFFFF 2 = 0 := by
    rw [← Memory.peek_add, Memory.peek_set, Memory.peek_set, Memory.peek_empty]
    decide
  have length : mem.HasLength 0xFFFF 2 := by
    refine ⟨by decide, fun i hi => ?_, fun _ => behind⟩
    rcases Nat.le_one_iff_eq_zero_or_eq_one.1 (Nat.le_of_lt_succ hi) with rfl | rfl
    · rw [first]
      decide
    · rw [second]
      decide
  obtain ⟨n, unique, -, shows⟩ := strings_end_at_zero mem 0xFFFF
  cases (unique 2).1 length
  have written := shows _ m w Console.Buffer.accepting rfl (Registers.get_set_self _ _ _)
  simp only [List.range_succ, List.range_zero, List.nil_append, List.cons_append, List.map_cons,
    List.map_nil, List.flatMap_cons, List.flatMap_nil, first, second] at written
  exact ⟨length, written⟩

/-- Writing a packed string unpacks it, wherever it stands in memory and whatever stands elsewhere,
and no two strings without zero bytes are packed alike. -/
theorem putsp_unpacks {s : List Byte} (nonzero : ∀ b ∈ s, b ≠ 0)
    (fits : (packWords s).length ≤ 65535) :
    (∀ {κ : Type} (con : Console (Cancellable κ)) (m : Machine) (w : Cancellable κ),
      con.Accepting → m.mem.Holds (m.regs.get .r0) (packWords s ++ [0]) →
      Shows con .putsp m w s) ∧
    ∀ s', (∀ b ∈ s', b ≠ 0) → (packWords s').length ≤ 65535 → packWords s' = packWords s →
      s' = s := by
  constructor
  · intro κ con m w accepting holds
    have string : m.mem.stringAt (m.regs.get .r0) = packWords s :=
      Memory.stringAt_of_holds (ne_zero_of_mem_packWords nonzero) (by omega) holds
    have shows := shows_of_accepting accepting (.inr rfl) m w
    rw [Trap.stringBytes, string, flatMap_packWords nonzero] at shows
    exact shows
  · intro s' nonzero' _ same
    exact packWords_inj nonzero' nonzero same

/-- Three characters across the end of memory, with other text right behind their end. -/
theorem putsp_unpacks_of_odd_length :
    let s : List Byte := [0x48, 0x69, 0x21]
    let mem := ((Memory.set {} 0xFFFF 0x6948).set 0 0x0021).set 2 0x4242
    let m : Machine := { mem, regs := Registers.initial.set .r0 0xFFFF }
    let w : Cancellable Console.Buffer := ⟨{}, false⟩
    (∀ b ∈ s, b ≠ 0) ∧ (packWords s).length ≤ 65535 ∧ mem.Holds 0xFFFF (packWords s ++ [0]) ∧
      Shows Console.Buffer.console.beside .putsp m w s := by
  intro s mem m w
  have packed : packWords s = [0x6948, 0x0021] := by decide
  have holds : mem.Holds 0xFFFF (packWords s ++ [0]) := by
    rw [packed]
    rintro (_ | _ | _ | i) hi
    · rw [← Memory.peek_add, Memory.peek_set, Memory.peek_set, Memory.peek_set]
      rfl
    · rw [← Memory.peek_add, Memory.peek_set, Memory.peek_set]
      rfl
    · rw [← Memory.peek_add, Memory.peek_set, Memory.peek_set, Memory.peek_set, Memory.peek_empty]
      rfl
    · exact absurd hi (by simp)
  have nonzero : ∀ b ∈ s, b ≠ 0 := by simp [s]
  have fits : (packWords s).length ≤ 65535 := by
    rw [packed]
    decide
  obtain ⟨shows, -⟩ := putsp_unpacks nonzero fits
  refine ⟨nonzero, fits, holds, shows _ m w Console.Buffer.accepting ?_⟩
  rw [show m.regs.get .r0 = 0xFFFF from Registers.get_set_self _ _ _]
  exact holds

end Machine

end LittleComputer
