import LittleComputer.Json.Parsing
import LittleComputer.Proofs.Json.Lexing

/-! Printed JSON is read back. The tokens of a value are put together to this value, and so a value
is found in any text that it is printed to. -/
namespace LittleComputer.Json
namespace Parser

/-- The first item is read like any other value, since none begins with a bracket that closes. -/
private theorem foldlM_firstItem (stack : List Enclosing) (v : Json) (rest : List Token) :
    (spelling v ++ rest).foldlM read ⟨stack, .firstItem⟩ =
      (spelling v ++ rest).foldlM read ⟨.item [] :: stack, .value⟩ := by
  cases v with
  | null | bool | nat | numeral | str => rfl
  | arr vs => cases vs <;> rfl
  | obj fs => cases fs <;> rfl

mutual

/-- From its tokens a value is put together where it was awaited. -/
theorem foldlM_spelling (stack : List Enclosing) (v : Json) (rest : List Token) :
    (spelling v ++ rest).foldlM read ⟨stack, .value⟩ = rest.foldlM read (fill stack v) := by
  cases v with
  | null | bool | nat | numeral | str => rfl
  | arr vs =>
    cases vs with
    | nil => rfl
    | cons v vs =>
      calc (spelling (.arr (v :: vs)) ++ rest).foldlM read ⟨stack, .value⟩
          = (spelling v ++ (itemSpelling vs ++ .closeArr :: rest)).foldlM read
              ⟨stack, .firstItem⟩ := by simp [spelling, read, begin?]
        _ = (itemSpelling vs ++ .closeArr :: rest).foldlM read ⟨stack, .nextItem [v]⟩ := by
              rw [foldlM_firstItem, foldlM_spelling]
              rfl
        _ = rest.foldlM read (fill stack (.arr (v :: vs))) := by
              rw [foldlM_itemSpelling]
              simp [read]
  | obj fs =>
    cases fs with
    | nil => rfl
    | cons f fs =>
      obtain ⟨k, v⟩ := f
      calc (spelling (.obj ((k, v) :: fs)) ++ rest).foldlM read ⟨stack, .value⟩
          = (spelling v ++ (fieldSpelling fs ++ .closeObj :: rest)).foldlM read
              ⟨.field [] k :: stack, .value⟩ := by simp [spelling, read, begin?]
        _ = (fieldSpelling fs ++ .closeObj :: rest).foldlM read ⟨stack, .nextField [(k, v)]⟩ := by
              rw [foldlM_spelling]
              rfl
        _ = rest.foldlM read (fill stack (.obj ((k, v) :: fs))) := by
              rw [foldlM_fieldSpelling]
              simp [read]

theorem foldlM_itemSpelling (stack : List Enclosing) (before vs : List Json) (rest : List Token) :
    (itemSpelling vs ++ rest).foldlM read ⟨stack, .nextItem before⟩ =
      rest.foldlM read ⟨stack, .nextItem (vs.reverse ++ before)⟩ := by
  cases vs with
  | nil => rfl
  | cons v vs =>
    calc (itemSpelling (v :: vs) ++ rest).foldlM read ⟨stack, .nextItem before⟩
        = (spelling v ++ (itemSpelling vs ++ rest)).foldlM read
            ⟨.item before :: stack, .value⟩ := by
            simp [itemSpelling, read]
      _ = (itemSpelling vs ++ rest).foldlM read ⟨stack, .nextItem (v :: before)⟩ := by
            rw [foldlM_spelling]
            rfl
      _ = rest.foldlM read ⟨stack, .nextItem ((v :: vs).reverse ++ before)⟩ := by
            rw [foldlM_itemSpelling]
            simp

theorem foldlM_fieldSpelling (stack : List Enclosing) (before fs : List (String × Json))
    (rest : List Token) :
    (fieldSpelling fs ++ rest).foldlM read ⟨stack, .nextField before⟩ =
      rest.foldlM read ⟨stack, .nextField (fs.reverse ++ before)⟩ := by
  cases fs with
  | nil => rfl
  | cons f fs =>
    obtain ⟨k, v⟩ := f
    calc (fieldSpelling ((k, v) :: fs) ++ rest).foldlM read ⟨stack, .nextField before⟩
        = (spelling v ++ (fieldSpelling fs ++ rest)).foldlM read
            ⟨.field before k :: stack, .value⟩ := by simp [fieldSpelling, read]
      _ = (fieldSpelling fs ++ rest).foldlM read ⟨stack, .nextField ((k, v) :: before)⟩ := by
            rw [foldlM_spelling]
            rfl
      _ = rest.foldlM read ⟨stack, .nextField (((k, v) :: fs).reverse ++ before)⟩ := by
            rw [foldlM_fieldSpelling]
            simp

end

end Parser

/-- A value is read back from any text that it is printed to. -/
theorem parse?_print {l : Layout} (hl : l.Blank) {v : Json} (legible : v.Legible) :
    parse? (print l v) = some v := by
  have read : (spelling v).foldlM Parser.read {} = some ⟨[], .done v⟩ := by
    have whole := Parser.foldlM_spelling [] v []
    rwa [List.append_nil] at whole
  simp [parse?, tokens?_print hl legible, read]

end LittleComputer.Json
