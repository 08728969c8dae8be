/-! Words and bytes of the machine. A word is 16 bits, all arithmetic on it is modulo 2^16,
and a field narrower than a word is widened by repeating its top bit. -/
namespace LittleComputer

abbrev Word := UInt16

abbrev Byte := UInt8

/-- Widen the low `bits` bits of `x`, for a width from 1 to 15. Bits above the field are
cut off first, so a field may be taken straight out of an instruction word. -/
def signExtend (x : Word) (bits : Nat) : Word :=
  let field := x &&& (0xFFFF >>> UInt16.ofNat (16 - bits))
  if (field >>> UInt16.ofNat (bits - 1)) &&& 1 == 1 then
    field ||| (0xFFFF <<< UInt16.ofNat bits)
  else field

def lowByte (w : Word) : Byte := w.toUInt8

def highByte (w : Word) : Byte := (w >>> 8).toUInt8

/-- The word of two bytes, the low one first. -/
def wordOfBytes (low high : Byte) : Word := (high.toUInt16 <<< 8) ||| low.toUInt16

/-- The bytes of a text that is all ASCII. -/
def asciiBytes (s : String) : List Byte := s.toList.map fun c => UInt8.ofNat c.toNat

/-- Numbers written in hexadecimal, lower case, filled up with zeros to `width` digits. -/
def hex (width : Nat) (n : Nat) : String :=
  let digits := Nat.toDigits 16 n
  String.ofList (List.replicate (width - digits.length) '0' ++ digits)

end LittleComputer
