import LittleComputer.Instruction.Basic
import LittleComputer.Json.Form

/-! Instructions in stored text: an object with the mnemonic as its one key. -/
namespace LittleComputer

/-- A register as a stored instruction names it: any number of one byte, also one above seven. -/
structure RegNumber where
  val : Byte
deriving DecidableEq

instance : Outlined RegNumber := ⟨fun r => .wrapped "Reg" [Outlined.outline r.val]⟩

instance : JsonForm RegNumber where
  toJson r := JsonForm.toJson r.val
  ofJson? v := (JsonForm.ofJson? v).map RegNumber.mk

/-- A register of the machine is written as its number. -/
instance : JsonWriter Reg := ⟨fun r => .nat r.index⟩

instance {ρ : Type} [JsonWriter ρ] : JsonWriter (Operand ρ) where
  toJson
    | .reg r => .obj [("Reg", JsonForm.toJson r)]
    | .imm v => .obj [("Imm", JsonForm.toJson v)]

instance {ρ : Type} [JsonForm ρ] : JsonForm (Operand ρ) where
  ofJson?
    | .obj [("Reg", v)] => (JsonForm.ofJson? v).map .reg
    | .obj [("Imm", v)] => (JsonForm.ofJson? v).map .imm
    | _ => none

namespace Instruction
variable {ρ : Type}

def Field.stored [JsonWriter ρ] : Field ρ → Json
  | .reg r => JsonForm.toJson r
  | .operand o => JsonForm.toJson o
  | .word w => JsonForm.toJson w
  | .vector v => JsonForm.toJson v

instance [JsonWriter ρ] : JsonWriter (Instruction ρ) where
  toJson i := .obj [(i.mnemonic, .obj (i.fields.map fun (name, f) => (name, f.stored)))]

section Reading
variable (parts : List String → Json → Option (List Json))

def read1 {α β : Type} [JsonForm α] (f : α → β) (a : String) (v : Json) : Option β := do
  match ← parts [a] v with
  | [x] => return f (← JsonForm.ofJson? x)
  | _ => none

def read2 {α β γ : Type} [JsonForm α] [JsonForm β] (f : α → β → γ) (a b : String)
    (v : Json) : Option γ := do
  match ← parts [a, b] v with
  | [x, y] => return f (← JsonForm.ofJson? x) (← JsonForm.ofJson? y)
  | _ => none

def read3 {α β γ δ : Type} [JsonForm α] [JsonForm β] [JsonForm γ] (f : α → β → γ → δ)
    (a b c : String) (v : Json) : Option δ := do
  match ← parts [a, b, c] v with
  | [x, y, z] => return f (← JsonForm.ofJson? x) (← JsonForm.ofJson? y) (← JsonForm.ofJson? z)
  | _ => none

/-- The instruction of a mnemonic, with its fields found by `parts`. -/
def ofFields? [JsonForm ρ] (mnemonic : String) (v : Json) : Option (Instruction ρ) :=
  match mnemonic with
  | "Add" => read3 parts .add "dr" "sr1" "op2" v
  | "And" => read3 parts .and "dr" "sr1" "op2" v
  | "Not" => read2 parts .not "dr" "sr" v
  | "Ld" => read2 parts .ld "dr" "offset" v
  | "Ldi" => read2 parts .ldi "dr" "offset" v
  | "Ldr" => read3 parts .ldr "dr" "base" "offset" v
  | "Lea" => read2 parts .lea "dr" "offset" v
  | "St" => read2 parts .st "sr" "offset" v
  | "Sti" => read2 parts .sti "sr" "offset" v
  | "Str" => read3 parts .str "sr" "base" "offset" v
  | "Br" => read2 parts .br "nzp" "offset" v
  | "Jmp" => read1 parts .jmp "base" v
  | "Jsr" => read1 parts .jsr "offset" v
  | "Jsrr" => read1 parts .jsrr "base" v
  | "Trap" => read1 parts .trap "vector" v
  | _ => none

end Reading

/-- The fields are given in an object, and in a text they may also be given in an array. -/
instance [JsonForm ρ] : JsonForm (Instruction ρ) where
  ofJson?
    | .obj [(mnemonic, v)] => ofFields? Json.contents? mnemonic v
    | _ => none
  ofText?
    | .obj [(mnemonic, v)] => ofFields? JsonForm.parts? mnemonic v
    | _ => none

end Instruction

end LittleComputer
