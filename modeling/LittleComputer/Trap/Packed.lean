import LittleComputer.Word

/-! Packed strings: two characters a word, the earlier one in the low byte. -/
namespace LittleComputer

/-- The words of a packed string, without the zero word behind them. A last character that has
no partner stands beside a zero byte. -/
def packWords : List Byte → List Word
  | [] => []
  | [a] => [wordOfBytes a 0]
  | a :: b :: rest => wordOfBytes a b :: packWords rest

end LittleComputer
