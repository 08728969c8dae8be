import LittleComputer.Json.Token

/-! Reading JSON. The parser keeps the arrays and objects that are still open on a stack, so
that reading is a fold over the tokens and nesting needs no bound. -/
namespace LittleComputer.Json

/-- An unfinished array or object whose next content is awaited, with what came before it,
latest first. -/
inductive Enclosing where
  | item (before : List Json)
  | field (before : List (String × Json)) (key : String)

/-- Where in the text the parser stands. -/
inductive Place where
  | value
  | firstItem
  | nextItem (before : List Json)
  | firstField
  | key (before : List (String × Json))
  | colon (before : List (String × Json)) (key : String)
  | nextField (before : List (String × Json))
  | done (v : Json)

structure Parser where
  enclosing : List Enclosing := []
  place : Place := .value

namespace Parser

/-- Put a finished value where it was awaited. -/
def fill (stack : List Enclosing) (v : Json) : Parser :=
  match stack with
  | [] => ⟨[], .done v⟩
  | .item before :: rest => ⟨rest, .nextItem (v :: before)⟩
  | .field before key :: rest => ⟨rest, .nextField ((key, v) :: before)⟩

/-- Begin a value with its first token. -/
def begin? (stack : List Enclosing) : Token → Option Parser
  | .scalar v => some (fill stack v)
  | .text s => some (fill stack (.str s))
  | .openArr => some ⟨stack, .firstItem⟩
  | .openObj => some ⟨stack, .firstField⟩
  | _ => none

/-- Read one token. -/
def read (p : Parser) (t : Token) : Option Parser :=
  match p, t with
  | ⟨stack, .value⟩, t => begin? stack t
  | ⟨stack, .firstItem⟩, .closeArr => some (fill stack (.arr []))
  | ⟨stack, .firstItem⟩, t => begin? (.item [] :: stack) t
  | ⟨stack, .nextItem before⟩, .comma => some ⟨.item before :: stack, .value⟩
  | ⟨stack, .nextItem before⟩, .closeArr => some (fill stack (.arr before.reverse))
  | ⟨stack, .firstField⟩, .closeObj => some (fill stack (.obj []))
  | ⟨stack, .firstField⟩, .text k => some ⟨stack, .colon [] k⟩
  | ⟨stack, .key before⟩, .text k => some ⟨stack, .colon before k⟩
  | ⟨stack, .colon before k⟩, .colon => some ⟨.field before k :: stack, .value⟩
  | ⟨stack, .nextField before⟩, .comma => some ⟨stack, .key before⟩
  | ⟨stack, .nextField before⟩, .closeObj => some (fill stack (.obj before.reverse))
  | _, _ => none

end Parser

/-- The value that a text holds, with nothing but blanks around it. -/
def parse? (text : String) : Option Json := do
  let p ← (← tokens? text).foldlM Parser.read {}
  match p with
  | ⟨[], .done v⟩ => some v
  | _ => none

end LittleComputer.Json
