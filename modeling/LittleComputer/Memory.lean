import LittleComputer.Console.Basic
import LittleComputer.Outline

/-! The memory: 65536 words, two of which near its top are the keyboard's registers. Reading
the status register asks the console for a key; writing either is plain storage. -/
namespace LittleComputer

def memorySize : Nat := 65536

/-- The keyboard status register. -/
def keyStatus : Word := 0xFE00

/-- The keyboard data register. -/
def keyData : Word := 0xFE02

/-- The status of a keyboard with a key ready. -/
def keyReady : Word := 0x8000

structure Memory where
  cells : Vector Word memorySize := Vector.replicate memorySize 0

namespace Memory
variable {σ : Type}

theorem address_lt (a : Word) : a.toNat < memorySize := a.toNat_lt

/-- The word at an address, with nothing else done. -/
def peek (m : Memory) (a : Word) : Word := m.cells.get ⟨a.toNat, address_lt a⟩

def set (m : Memory) (a v : Word) : Memory := ⟨m.cells.set a.toNat v (address_lt a)⟩

/-- What reading the keyboard status leaves in the two registers. -/
def latch (m : Memory) : Option Byte → Memory
  | some key => (m.set keyStatus keyReady).set keyData key.toUInt16
  | none => m.set keyStatus 0

/-- Read a word as a running program does. -/
def read (con : Console σ) (a : Word) : EStateM Console.Error (Memory × σ) Word :=
  fun (m, c) =>
    if a == keyStatus then
      match con.pollKey c with
      | .ok key c =>
        let m := m.latch key
        .ok (m.peek a) (m, c)
      | .error e c => .error e (m, c)
    else .ok (m.peek a) (m, c)

/-- Put words at consecutive addresses from `a` on, as far as there are addresses. -/
def place (m : Memory) (a : Nat) : List Word → Memory
  | [] => m
  | w :: ws => if h : a < memorySize then place ⟨m.cells.set a w h⟩ (a + 1) ws else m

/-- Put words at consecutive addresses. Words that would run past the end of the memory are out of
range, and are not begun with. -/
def load (origin : Word) (words : List Word) : EStateM Unit Memory Unit := do
  unless origin.toNat + words.length ≤ memorySize do throw ()
  modify fun m => m.place origin.toNat words

/-- The memory after words have been put there, unless they are out of range. -/
def load? (m : Memory) (origin : Word) (words : List Word) : Option Memory :=
  match load origin words m with
  | .ok () m => some m
  | .error () _ => none

/-- Go on from offset `i` to the first offset from `a` with a zero word, for at most `n` words. -/
def zeroFrom (m : Memory) (a : Word) (i : Nat) : (n : Nat) → Nat
  | 0 => i
  | n + 1 => if m.peek (a + UInt16.ofNat i) == 0 then i else zeroFrom m a (i + 1) n

/-- The number of words before the first zero, round the end of memory, or of all words if
none is zero. -/
def extent (m : Memory) (a : Word) : Nat := m.zeroFrom a 0 memorySize

/-- The string at an address: the words up to the first zero. -/
def stringAt (m : Memory) (a : Word) : List Word :=
  (List.range (m.extent a)).map fun i => m.peek (a + UInt16.ofNat i)

def nonZeroCount (m : Memory) : Nat := m.cells.foldl (fun n w => if w == 0 then n else n + 1) 0

instance : Outlined Memory :=
  ⟨fun m => .record "Memory"
    [("non_zero_cells", .nat m.nonZeroCount), ("total_cells", .nat memorySize)]⟩

end Memory

end LittleComputer
