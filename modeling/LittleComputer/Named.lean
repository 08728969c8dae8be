/-! Small closed types whose values are known by name, in listings and in stored text alike. -/
namespace LittleComputer

/-- Every value of the type, and the name of each. -/
class Named (α : Type) where
  all : List α
  name : α → String

namespace Named
variable {α : Type} [Named α]

/-- The value of a name, spelled exactly. -/
def ofName? (s : String) : Option α :=
  (all : List α).find? fun a => name a == s

end Named

end LittleComputer
