import LittleComputer.Word

/-! Bytes as UTF-8 text, whatever the bytes. Where they are no valid text, each longest piece
that could still have become a character, or else a single byte, gives one replacement mark. -/
namespace LittleComputer.Utf8

/-- A character that has begun: the bytes still missing, the range of the next one, and the
bits of the code point so far. -/
structure Begun where
  missing : Nat
  low : Byte
  high : Byte
  code : Nat

structure Decoder where
  text : String := ""
  begun : Option Begun := none

def replacement : Char := '\uFFFD'

/-- What a first byte of several begins. The range of the second byte keeps out long forms,
surrogates and code points that are too large. -/
def begun? (b : Byte) : Option Begun :=
  if 0xC2 ≤ b ∧ b ≤ 0xDF then some ⟨1, 0x80, 0xBF, b.toNat - 0xC0⟩
  else if b = 0xE0 then some ⟨2, 0xA0, 0xBF, 0⟩
  else if b = 0xED then some ⟨2, 0x80, 0x9F, 0xD⟩
  else if 0xE1 ≤ b ∧ b ≤ 0xEF then some ⟨2, 0x80, 0xBF, b.toNat - 0xE0⟩
  else if b = 0xF0 then some ⟨3, 0x90, 0xBF, 0⟩
  else if 0xF1 ≤ b ∧ b ≤ 0xF3 then some ⟨3, 0x80, 0xBF, b.toNat - 0xF0⟩
  else if b = 0xF4 then some ⟨3, 0x80, 0x8F, 4⟩
  else none

namespace Decoder

/-- Read a byte that begins a character. -/
def first (text : String) (b : Byte) : Decoder :=
  if b < 0x80 then ⟨text.push (Char.ofNat b.toNat), none⟩
  else
    match begun? b with
    | some c => ⟨text, some c⟩
    | none => ⟨text.push replacement, none⟩

def read (d : Decoder) (b : Byte) : Decoder :=
  match d with
  | ⟨text, none⟩ => first text b
  | ⟨text, some ⟨missing, low, high, code⟩⟩ =>
    if low ≤ b ∧ b ≤ high then
      let code := 64 * code + (b.toNat - 0x80)
      if missing ≤ 1 then ⟨text.push (Char.ofNat code), none⟩
      else ⟨text, some ⟨missing - 1, 0x80, 0xBF, code⟩⟩
    else first (text.push replacement) b

/-- The text, when no more bytes come. -/
def finish (d : Decoder) : String :=
  if d.begun.isSome then d.text.push replacement else d.text

end Decoder

def decodeLossy (bytes : List Byte) : String := (bytes.foldl Decoder.read {}).finish

end LittleComputer.Utf8
