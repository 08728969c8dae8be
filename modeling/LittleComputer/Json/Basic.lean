/-! JSON values. Objects keep their fields in the order written, and a natural number is kept
apart from every other numeral, since a stored word or count is always natural. -/
namespace LittleComputer

inductive Json where
  | null
  | bool (b : Bool)
  | nat (n : Nat)
  /-- A signed, fractional or scaled numeral, as it was written. -/
  | numeral (text : String)
  | str (s : String)
  | arr (items : List Json)
  | obj (fields : List (String × Json))

namespace Json

/-- The content of the field `key` of an object in which it occurs once. -/
def unique? (fields : List (String × Json)) (key : String) : Option Json :=
  match fields.filter fun f => f.1 == key with
  | [(_, v)] => some v
  | _ => none

/-- The contents of the named fields, in the order named. Other fields are passed over. -/
def contents? (names : List String) : Json → Option (List Json)
  | .obj fields => names.mapM (unique? fields)
  | _ => none

end Json

end LittleComputer
