import LittleComputer.Machine.Basic
import LittleComputer.Proofs.Word.Fields

/-! The table of operations, read off the bits of an instruction word. It knows no instructions:
a row is found by the top four bits, and takes its registers, offsets and masks straight from
the word. The console is one whose calls all succeed, given by its replies. -/
namespace LittleComputer.OpcodeTable
variable {σ : Type}

/-- What each call of a console answers, and the state it leaves. -/
structure Replies (σ : Type) where
  pollKey : σ → Option Byte × σ
  readKey : σ → Byte × σ
  writeByte : Byte → σ → σ
  flush : σ → σ

/-- All calls of a console succeed, with these replies. -/
structure Replies.Describes (r : Replies σ) (con : Console σ) : Prop where
  pollKey : ∀ c, con.pollKey c = .ok (r.pollKey c).1 (r.pollKey c).2
  readKey : ∀ c, con.readKey c = .ok (r.readKey c).1 (r.readKey c).2
  writeByte : ∀ b c, con.writeByte b c = .ok () (r.writeByte b c)
  flush : ∀ c, con.flush c = .ok () (r.flush c)

/-- The console that answers so. -/
def Replies.console (r : Replies σ) : Console σ where
  pollKey c := .ok (r.pollKey c).1 (r.pollKey c).2
  readKey c := .ok (r.readKey c).1 (r.readKey c).2
  writeByte b c := .ok () (r.writeByte b c)
  flush c := .ok () (r.flush c)

theorem Replies.describes_console (r : Replies σ) : r.Describes r.console :=
  ⟨fun _ => rfl, fun _ => rfl, fun _ _ => rfl, fun _ => rfl⟩

/-- Every console whose calls all succeed has replies. -/
theorem Replies.exists_describes {con : Console σ}
    (poll : ∀ c, ∃ reply : Option Byte × σ, con.pollKey c = .ok reply.1 reply.2)
    (read : ∀ c, ∃ reply : Byte × σ, con.readKey c = .ok reply.1 reply.2)
    (write : ∀ b c, ∃ c', con.writeByte b c = .ok () c')
    (flush : ∀ c, ∃ c', con.flush c = .ok () c') : ∃ r : Replies σ, r.Describes con := by
  refine ⟨⟨fun c => (poll c).choose, fun c => (read c).choose, fun b c => (write b c).choose,
    fun c => (flush c).choose⟩, ?_⟩
  constructor
  · exact fun c => (poll c).choose_spec
  · exact fun c => (read c).choose_spec
  · exact fun b c => (write b c).choose_spec
  · exact fun c => (flush c).choose_spec

/-- The flag of a value read as a signed number. -/
def sign (v : Word) : Flag :=
  if v.toBitVec.toInt < 0 then .neg else if v.toBitVec.toInt = 0 then .zro else .pos

/-- The condition register: one bit each for negative, zero and positive. -/
def condition : Flag → BitVec 3
  | .neg => 0b100#3
  | .zro => 0b010#3
  | .pos => 0b001#3

/-- Give a register a value, and the condition register its sign. -/
def assign (r : Reg) (v : Word) (m : Machine) : Machine :=
  { m with regs := { m.regs.set r v with cond := sign v } }

/-- Write the address of the next instruction to R7. -/
def link (m : Machine) : Machine := { m with regs := m.regs.set .r7 m.regs.pc }

def jump (a : Word) (m : Machine) : Machine := { m with regs := { m.regs with pc := a } }

def store (a v : Word) (m : Machine) : Machine := { m with mem := m.mem.set a v }

/-- The words from an address on, round the end of memory, up to the first zero. -/
def text (mem : Memory) (a : Word) : List Word :=
  ((List.range 65536).map fun i => mem.peek (a + UInt16.ofNat i)).takeWhile (· ≠ 0)

def low (w : Word) : Byte := ⟨bits w 0 8⟩

def high (w : Word) : Byte := ⟨bits w 8 8⟩

namespace Replies
variable (r : Replies σ)

/-- A read: the keyboard is asked at 0xFE00, and leaves its key at 0xFE02. -/
def read (a : Word) (m : Machine) (c : σ) : Word × Machine × σ :=
  if a = 0xFE00 then
    match r.pollKey c with
    | (some key, c) => (0x8000, store 0xFE02 key.toUInt16 (store 0xFE00 0x8000 m), c)
    | (none, c) => (0, store 0xFE00 0 m, c)
  else (m.mem.peek a, m, c)

/-- Write bytes, then flush. -/
def write (bytes : List Byte) (c : σ) : σ :=
  r.flush (bytes.foldl (fun c b => r.writeByte b c) c)

/-- The routine of a trap's low eight bits. -/
def serve (v : BitVec 8) (m : Machine) (c : σ) : Machine × σ :=
  let r0 := m.regs.get .r0
  match v with
  | 0x20#8 =>
    let (key, c) := r.readKey c
    (assign .r0 key.toUInt16 m, r.flush c)
  | 0x21#8 => (m, r.write [low r0] c)
  | 0x22#8 => (m, r.write ((text m.mem r0).map low) c)
  | 0x23#8 =>
    let (key, c) := r.readKey (r.write (asciiBytes "Enter a character: ") c)
    (assign .r0 key.toUInt16 m, r.write [key] c)
  | 0x24#8 =>
    let unpack (w : Word) := if high w = 0 then [low w] else [low w, high w]
    (m, r.write ((text m.mem r0).flatMap unpack) c)
  | 0x25#8 => ({ m with state := .halted }, r.write (asciiBytes "HALT\n") c)
  | _ => (m, c)

/-- The row of an instruction word, for a machine whose program counter is already past it. -/
def row (w : Word) (m : Machine) (c : σ) : Machine × σ :=
  let p := m.regs.pc
  let dr := regAt w 9
  let near := p + signed w 9
  let base := m.regs.get (regAt w 6)
  let sr2 := if bits w 5 1 = 1#1 then signed w 5 else m.regs.get (regAt w 0)
  match bits w 12 4 with
  | 0b0000#4 => (if bits w 9 3 &&& condition m.regs.cond ≠ 0 then jump near m else m, c)
  | 0b0001#4 => (assign dr (base + sr2) m, c)
  | 0b0010#4 =>
    let (v, m, c) := r.read near m c
    (assign dr v m, c)
  | 0b0011#4 => (store near (m.regs.get dr) m, c)
  | 0b0100#4 =>
    if bits w 11 1 = 1#1 then (jump (p + signed w 11) (link m), c)
    else (jump ((link m).regs.get (regAt w 6)) (link m), c)
  | 0b0101#4 => (assign dr (base &&& sr2) m, c)
  | 0b0110#4 =>
    let (v, m, c) := r.read (base + signed w 6) m c
    (assign dr v m, c)
  | 0b0111#4 => (store (base + signed w 6) (m.regs.get dr) m, c)
  | 0b1001#4 => (assign dr (~~~ base) m, c)
  | 0b1010#4 =>
    let (a, m, c) := r.read near m c
    let (v, m, c) := r.read a m c
    (assign dr v m, c)
  | 0b1011#4 =>
    let (a, m, c) := r.read near m c
    (store a (m.regs.get dr) m, c)
  | 0b1100#4 => (jump base m, c)
  | 0b1110#4 => (assign dr near m, c)
  | 0b1111#4 => r.serve (bits w 0 8) (link m) c
  | _ => (m, c)

/-- The word that the next step fetches. -/
def fetched (m : Machine) (c : σ) : Word := (r.read m.regs.pc m c).1

/-- Fetch a word, move past it, do its row and count it. -/
def next (m : Machine) (c : σ) : Machine × σ :=
  let (w, m, c) := r.read m.regs.pc m c
  let (m, c) := r.row w (jump (m.regs.pc + 1) m) c
  ({ m with cycles := UInt64.ofNat (m.cycles.toNat + 1) }, c)

end Replies

/-- A word that says something to do: no reserved operation, and no trap but the six. -/
def Executable (w : Word) : Prop :=
  bits w 12 4 ≠ 0b1000#4 ∧ bits w 12 4 ≠ 0b1101#4 ∧
    (bits w 12 4 = 0b1111#4 → 0x20#8 ≤ bits w 0 8 ∧ bits w 0 8 ≤ 0x25#8)

end LittleComputer.OpcodeTable
