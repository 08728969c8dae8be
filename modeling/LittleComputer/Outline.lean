/-! Outlines of values for a human reader, on one line or with one field a line. -/
namespace LittleComputer

/-- What is shown of a value: a bare text, a record of named fields, a constructor around
unnamed ones, or a list. -/
inductive Outline where
  | leaf (text : String)
  | record (name : String) (fields : List (String × Outline))
  | wrapped (name : String) (parts : List Outline)
  | list (items : List Outline)

/-- Types whose values have an outline. -/
class Outlined (α : Type) where
  outline : α → Outline

namespace Outline

def nat (n : Nat) : Outline := .leaf n.repr

mutual

/-- The outline on one line. -/
def inline : Outline → String
  | .leaf text => text
  | .record name [] => name
  | .record name fields => name ++ " \x7b " ++ ", ".intercalate (inlineFields fields) ++ " \x7d"
  | .wrapped name parts => name ++ "(" ++ ", ".intercalate (inlineAll parts) ++ ")"
  | .list items => "[" ++ ", ".intercalate (inlineAll items) ++ "]"

def inlineAll : List Outline → List String
  | [] => []
  | o :: os => inline o :: inlineAll os

def inlineFields : List (String × Outline) → List String
  | [] => []
  | (name, o) :: fs => (name ++ ": " ++ inline o) :: inlineFields fs

end

def margin (depth : Nat) : String := String.ofList (List.replicate (4 * depth) ' ')

mutual

/-- The outline with one part a line, each line indented by four blanks a level and each part
followed by a comma. -/
def indentedAt (depth : Nat) : Outline → String
  | .leaf text => text
  | .record name [] => name
  | .record name fields =>
    name ++ " \x7b\n" ++ fieldLines (depth + 1) fields ++ margin depth ++ "\x7d"
  | .wrapped name parts => name ++ "(\n" ++ lines (depth + 1) parts ++ margin depth ++ ")"
  | .list [] => "[]"
  | .list items => "[\n" ++ lines (depth + 1) items ++ margin depth ++ "]"

def lines (depth : Nat) : List Outline → String
  | [] => ""
  | o :: os => margin depth ++ indentedAt depth o ++ ",\n" ++ lines depth os

def fieldLines (depth : Nat) : List (String × Outline) → String
  | [] => ""
  | (name, o) :: fs =>
    margin depth ++ name ++ ": " ++ indentedAt depth o ++ ",\n" ++ fieldLines depth fs

end

def indented (o : Outline) : String := indentedAt 0 o

end Outline

instance : Outlined Nat := ⟨Outline.nat⟩

instance : Outlined UInt8 := ⟨fun b => .nat b.toNat⟩

instance : Outlined UInt16 := ⟨fun w => .nat w.toNat⟩

instance : Outlined UInt64 := ⟨fun n => .nat n.toNat⟩

instance {α : Type} [Outlined α] {n : Nat} : Outlined (Vector α n) :=
  ⟨fun xs => .list (xs.toList.map Outlined.outline)⟩

end LittleComputer
