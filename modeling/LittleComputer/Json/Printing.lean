import LittleComputer.Json.Basic
import LittleComputer.Word

/-! JSON text, compact or spread over lines. The two differ only in the blanks between tokens,
which a layout fixes. -/
namespace LittleComputer.Json

/-- The blanks of a text: what stands at the start of an item at a depth, and after a colon. -/
structure Layout where
  lead : Nat → String
  afterColon : String

/-- No blanks at all. -/
def Layout.compact : Layout := ⟨fun _ => "", ""⟩

/-- Every item and field on a line of its own, two blanks deeper than what encloses it. -/
def Layout.pretty : Layout :=
  ⟨fun depth => String.ofList ('\n' :: List.replicate (2 * depth) ' '), " "⟩

/-- A character inside a quoted text. -/
def escape (c : Char) : String :=
  if c = '"' then "\\\""
  else if c = '\\' then "\\\\"
  else if c = '\n' then "\\n"
  else if c = '\r' then "\\r"
  else if c = '\t' then "\\t"
  else if c = '\x08' then "\\b"
  else if c = '\x0c' then "\\f"
  else if c.toNat < 32 then "\\u" ++ hex 4 c.toNat
  else c.toString

/-- Write a quoted text behind what is already written. -/
def quoteOnto (out : String) (s : String) : String :=
  (s.toList.foldl (fun out c => out ++ escape c) (out.push '"')).push '"'

mutual

/-- Write a value behind what is already written. -/
def printOnto (l : Layout) (depth : Nat) (out : String) : Json → String
  | .null => out ++ "null"
  | .bool true => out ++ "true"
  | .bool false => out ++ "false"
  | .nat n => out ++ n.repr
  | .numeral text => out ++ text
  | .str s => quoteOnto out s
  | .arr [] => out ++ "[]"
  | .arr (v :: vs) =>
    let out := printOnto l (depth + 1) (out ++ "[" ++ l.lead (depth + 1)) v
    printItems l (depth + 1) out vs ++ l.lead depth ++ "]"
  | .obj [] => out ++ "\x7b\x7d"
  | .obj ((k, v) :: fs) =>
    let out := quoteOnto (out ++ "\x7b" ++ l.lead (depth + 1)) k ++ ":" ++ l.afterColon
    printFields l (depth + 1) (printOnto l (depth + 1) out v) fs ++ l.lead depth ++ "\x7d"

/-- The items after the first. -/
def printItems (l : Layout) (depth : Nat) (out : String) : List Json → String
  | [] => out
  | v :: vs => printItems l depth (printOnto l depth (out ++ "," ++ l.lead depth) v) vs

/-- The fields after the first. -/
def printFields (l : Layout) (depth : Nat) (out : String) : List (String × Json) → String
  | [] => out
  | (k, v) :: fs =>
    let out := quoteOnto (out ++ "," ++ l.lead depth) k ++ ":" ++ l.afterColon
    printFields l depth (printOnto l depth out v) fs

end

def print (l : Layout) (v : Json) : String := printOnto l 0 "" v

def compact (v : Json) : String := print .compact v

def pretty (v : Json) : String := print .pretty v

end LittleComputer.Json
