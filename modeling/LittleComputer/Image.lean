import LittleComputer.Machine.Basic

/-! Program images: the address of the first word, then the words, all with the high byte first.
An image lies within the memory and leaves the keyboard's registers alone. -/
namespace LittleComputer

namespace Image

/-- Whether the address `a` is among the `count` addresses from `origin` on. -/
def covers (origin : Word) (count : Nat) (a : Word) : Bool :=
  origin.toNat ≤ a.toNat && a.toNat < origin.toNat + count

/-- Why bytes are no image. -/
inductive Error where
  | missingOrigin
  | truncated (bytes : Nat)
  | tooLarge (origin : Word) (words : Nat)
  | coversKeyboard (origin : Word) (words : Nat)
deriving DecidableEq

def Error.placed (origin : Word) (words : Nat) : String :=
  words.repr ++ " words at origin 0x" ++ hex 4 origin.toNat

def Error.message : Error → String
  | .missingOrigin => "image has no origin word"
  | .truncated bytes => "image ends mid-word (" ++ bytes.repr ++ " bytes)"
  | .tooLarge origin words => placed origin words ++ " run past the end of memory"
  | .coversKeyboard origin words => placed origin words ++ " cover the keyboard device registers"

end Image

structure Image where
  origin : Word
  words : List Word
  fits : origin.toNat + words.length ≤ memorySize
  clearOfStatus : Image.covers origin words.length keyStatus = false
  clearOfData : Image.covers origin words.length keyData = false

namespace Image

/-- One past the last address of the image. -/
def stop (i : Image) : Nat := i.origin.toNat + i.words.length

/-- The words of a list of bytes, put behind others. A last byte without a partner is lost. -/
def wordsOnto (before : Array Word) : List Byte → Array Word
  | high :: low :: rest => wordsOnto (before.push (wordOfBytes low high)) rest
  | _ => before

/-- The image of an origin and words, if they may be placed there. -/
def place (origin : Word) (words : List Word) : Except Error Image :=
  if fits : origin.toNat + words.length ≤ memorySize then
    if clear : covers origin words.length keyStatus = false
        ∧ covers origin words.length keyData = false then
      .ok ⟨origin, words, fits, clear.1, clear.2⟩
    else .error (.coversKeyboard origin words.length)
  else .error (.tooLarge origin words.length)

/-- Read an image. -/
def ofBytes : List Byte → Except Error Image
  | high :: low :: rest =>
    if rest.length % 2 = 0 then place (wordOfBytes low high) (wordsOnto #[] rest).toList
    else .error (.truncated (rest.length + 2))
  | _ => .error .missingOrigin

/-- The bytes of a word, the high one first. -/
def wordBytes (w : Word) : List Byte := [highByte w, lowByte w]

def toBytes (i : Image) : List Byte := wordBytes i.origin ++ i.words.flatMap wordBytes

end Image

/-- Copy an image into memory. -/
def Machine.loadImage (m : Machine) (i : Image) : Machine :=
  { m with mem := m.mem.place i.origin.toNat i.words }

end LittleComputer
