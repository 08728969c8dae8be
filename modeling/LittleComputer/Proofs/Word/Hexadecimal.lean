import Mathlib.Data.List.Basic
import LittleComputer.Proofs.Word.Fields

/-! Words in hexadecimal. The four digits that a word is written with are the quarters of its
bits. -/
namespace LittleComputer

/-- A word as four hexadecimal digits, each for four bits. -/
def hexDigits (w : Word) : String :=
  String.ofList ([12, 8, 4, 0].map fun low => Nat.digitChar (bits w low 4).toNat)

private theorem hex_one {n : Nat} (h : n < 16) : hex 1 n = String.ofList [Nat.digitChar n] := by
  simp [hex, Nat.toDigits_of_lt_base h]

/-- One more digit for the lowest four bits, whether or not there is anything above them. -/
private theorem hex_succ {width : Nat} (pos : 0 < width) (n : Nat) :
    (hex (width + 1) n).toList = (hex width (n / 16)).toList ++ [Nat.digitChar (n % 16)] := by
  by_cases small : n < 16
  · obtain ⟨k, rfl⟩ : ∃ k, width = k + 1 := ⟨width - 1, by omega⟩
    have above : n / 16 = 0 := by omega
    simp [hex, Nat.toDigits_of_lt_base small, above, Nat.mod_eq_of_lt small,
      List.replicate_succ']
  · rw [hex, hex, Nat.toDigits_of_base_le (by decide) (Nat.not_lt.1 small)]
    simp

theorem hex_four (w : Word) : hex 4 w.toNat = hexDigits w := by
  have bound := w.toNat_lt
  have quarter (low : Nat) : (bits w low 4).toNat = (w.toNat >>> low) % 16 := rfl
  apply String.toList_inj.1
  rw [hex_succ (by decide), hex_succ (by decide), hex_succ (by decide), hex_one (by omega),
    hexDigits]
  simp only [quarter, Nat.shiftRight_eq_div_pow, List.map_cons, List.map_nil, String.toList_ofList,
    Nat.div_div_eq_div_mul, List.cons_append, List.nil_append]
  have top : w.toNat / 2 ^ 12 < 16 := by omega
  rw [Nat.mod_eq_of_lt top]
  simp

end LittleComputer
