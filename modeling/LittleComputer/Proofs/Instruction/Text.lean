import LittleComputer.Instruction.Basic

/-! The text of an instruction: its name and then its fields, each with its own name. -/
namespace LittleComputer

/-- A name with fields and their contents. -/
def fieldsText (name : String) (fields : List (String × String)) : String :=
  name ++ " \x7b " ++ ", ".intercalate (fields.map fun (field, text) => field ++ ": " ++ text) ++
    " \x7d"

def regText (r : Reg) : String := "Reg(" ++ r.index.val.repr ++ ")"

def wordText (w : Word) : String := w.toNat.repr

def operandText : Operand Reg → String
  | .reg r => "Reg(" ++ regText r ++ ")"
  | .imm v => "Imm(" ++ wordText v ++ ")"

def vectorText : TrapVector → String
  | .getc => "Getc"
  | .out => "Out"
  | .puts => "Puts"
  | .prompt => "In"
  | .putsp => "Putsp"
  | .halt => "Halt"

/-- What stands for an instruction in a listing. -/
def instructionText : Instruction Reg → String
  | .add dr sr1 op2 =>
    fieldsText "Add" [("dr", regText dr), ("sr1", regText sr1), ("op2", operandText op2)]
  | .and dr sr1 op2 =>
    fieldsText "And" [("dr", regText dr), ("sr1", regText sr1), ("op2", operandText op2)]
  | .not dr sr => fieldsText "Not" [("dr", regText dr), ("sr", regText sr)]
  | .ld dr offset => fieldsText "Ld" [("dr", regText dr), ("offset", wordText offset)]
  | .ldi dr offset => fieldsText "Ldi" [("dr", regText dr), ("offset", wordText offset)]
  | .ldr dr base offset =>
    fieldsText "Ldr" [("dr", regText dr), ("base", regText base), ("offset", wordText offset)]
  | .lea dr offset => fieldsText "Lea" [("dr", regText dr), ("offset", wordText offset)]
  | .st sr offset => fieldsText "St" [("sr", regText sr), ("offset", wordText offset)]
  | .sti sr offset => fieldsText "Sti" [("sr", regText sr), ("offset", wordText offset)]
  | .str sr base offset =>
    fieldsText "Str" [("sr", regText sr), ("base", regText base), ("offset", wordText offset)]
  | .br nzp offset => fieldsText "Br" [("nzp", wordText nzp), ("offset", wordText offset)]
  | .jmp base => fieldsText "Jmp" [("base", regText base)]
  | .jsr offset => fieldsText "Jsr" [("offset", wordText offset)]
  | .jsrr base => fieldsText "Jsrr" [("base", regText base)]
  | .trap vector => fieldsText "Trap" [("vector", vectorText vector)]

theorem Instruction.text_eq (i : Instruction Reg) : i.text = instructionText i := by
  cases i with
  | add _ _ op2 | and _ _ op2 => cases op2 <;> rfl
  | trap v => cases v <;> rfl
  | _ => rfl

end LittleComputer
