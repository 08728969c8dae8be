import LittleComputer.Word
import LittleComputer.Json.Form

/-! The six services that a TRAP instruction can ask for. -/
namespace LittleComputer

inductive TrapVector where
  /-- Read a character without showing it. -/
  | getc
  /-- Write the character in R0. -/
  | out
  /-- Write a string with one character a word. -/
  | puts
  /-- Ask for a character, read it and show it. -/
  | prompt
  /-- Write a string with two characters a word. -/
  | putsp
  /-- Stop the machine. -/
  | halt
deriving DecidableEq

namespace TrapVector

def code : TrapVector → Byte
  | .getc => 0x20
  | .out => 0x21
  | .puts => 0x22
  | .prompt => 0x23
  | .putsp => 0x24
  | .halt => 0x25

def ofCode? (b : Byte) : Option TrapVector :=
  [.getc, .out, .puts, .prompt, .putsp, .halt].find? fun v => v.code == b

instance : Named TrapVector where
  all := [.getc, .out, .puts, .prompt, .putsp, .halt]
  name
    | .getc => "Getc" | .out => "Out" | .puts => "Puts"
    | .prompt => "In" | .putsp => "Putsp" | .halt => "Halt"

instance : Outlined TrapVector := ⟨fun v => .leaf (Named.name v)⟩

instance : JsonForm TrapVector := JsonForm.ofNamed

end TrapVector

end LittleComputer
