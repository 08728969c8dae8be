import LittleComputer.Json.Basic
import LittleComputer.Named
import LittleComputer.Register

/-! The stored form of values: how each is written as JSON, and which JSON is accepted for it. -/
namespace LittleComputer

/-- Types whose values are written as JSON. -/
class JsonWriter (α : Type) where
  toJson : α → Json

/-- Types whose values are also read from JSON. -/
class JsonForm (α : Type) extends JsonWriter α where
  ofJson? : Json → Option α
  /-- What is accepted while a text is being read, where there are sometimes more ways to give a
  value. -/
  ofText? : Json → Option α := ofJson?

namespace JsonForm
export JsonWriter (toJson)

/-- A number of a bounded range, accepted only as a plain natural numeral within it. -/
def boundedNat? (bound : Nat) : Json → Option (Fin bound)
  | .nat n => if h : n < bound then some ⟨n, h⟩ else none
  | _ => none

instance : JsonForm UInt8 where
  toJson b := .nat b.toNat
  ofJson? v := (boundedNat? UInt8.size v).map UInt8.ofFin

instance : JsonForm UInt16 where
  toJson w := .nat w.toNat
  ofJson? v := (boundedNat? UInt16.size v).map UInt16.ofFin

instance : JsonForm UInt64 where
  toJson n := .nat n.toNat
  ofJson? v := (boundedNat? UInt64.size v).map UInt64.ofFin

/-- A named value is written as its name. It is read from its name too, or from an object with
that name as its one field and nothing in it. -/
@[reducible] def ofNamed {α : Type} [Named α] : JsonForm α where
  toJson a := .str (Named.name a)
  ofJson?
    | .str s => Named.ofName? s
    | .obj [(s, .null)] => Named.ofName? s
    | _ => none

instance : JsonForm Flag := ofNamed

/-- A row of values of fixed length. -/
instance {α : Type} [JsonForm α] {n : Nat} : JsonForm (Vector α n) where
  toJson xs := .arr (xs.toList.map toJson)
  ofJson?
    | .arr vs => do
      let xs ← vs.mapM ofJson?
      if h : xs.length = n then some ⟨xs.toArray, by simpa using h⟩ else none
    | _ => none

/-- The contents of a record's fields. A record is written as an object; it is read from one
that has each field, or from an array of just the contents in order. -/
def parts? (names : List String) : Json → Option (List Json)
  | .arr vs => if vs.length = names.length then some vs else none
  | v => v.contents? names

instance : JsonForm Registers where
  toJson rs := .obj [("gpr", toJson rs.gpr), ("pc", toJson rs.pc), ("cond", toJson rs.cond)]
  ofJson? v := do
    match ← parts? ["gpr", "pc", "cond"] v with
    | [gpr, pc, cond] => return ⟨← ofJson? gpr, ← ofJson? pc, ← ofJson? cond⟩
    | _ => none

end JsonForm

end LittleComputer
