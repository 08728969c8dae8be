import Mathlib.Data.List.Basic
import Mathlib.Data.List.TakeWhile
import Mathlib.Tactic.SplitIfs
import LittleComputer.Json.Printing
import LittleComputer.Json.Token

/-! Printed JSON, token by token. A text that a value is printed to is read as the tokens of the
value, whatever blanks the layout puts between them. -/
namespace LittleComputer.Json

mutual

/-- The tokens of a value. -/
def spelling : Json → List Token
  | .null => [.scalar .null]
  | .bool b => [.scalar (.bool b)]
  | .nat n => [.scalar (.nat n)]
  | .numeral text => [.scalar (.numeral text)]
  | .str s => [.text s]
  | .arr [] => [.openArr, .closeArr]
  | .arr (v :: vs) => [.openArr] ++ spelling v ++ itemSpelling vs ++ [.closeArr]
  | .obj [] => [.openObj, .closeObj]
  | .obj ((k, v) :: fs) =>
    [.openObj, .text k, .colon] ++ spelling v ++ fieldSpelling fs ++ [.closeObj]

def itemSpelling : List Json → List Token
  | [] => []
  | v :: vs => [.comma] ++ spelling v ++ itemSpelling vs

def fieldSpelling : List (String × Json) → List Token
  | [] => []
  | (k, v) :: fs => [.comma, .text k, .colon] ++ spelling v ++ fieldSpelling fs

end

mutual

/-- Numerals that are no natural numbers have been kept as they may be written. -/
def Legible : Json → Prop
  | .numeral text =>
    (text.toList ≠ [] ∧ ∀ c ∈ text.toList, isWordChar c) ∧ ofWord? text = some (.numeral text)
  | .arr vs => LegibleItems vs
  | .obj fs => LegibleFields fs
  | _ => True

def LegibleItems : List Json → Prop
  | [] => True
  | v :: vs => Legible v ∧ LegibleItems vs

def LegibleFields : List (String × Json) → Prop
  | [] => True
  | (_, v) :: fs => Legible v ∧ LegibleFields fs

end

theorem legibleItems_iff {vs : List Json} : LegibleItems vs ↔ ∀ v ∈ vs, Legible v := by
  induction vs with
  | nil => simp [LegibleItems]
  | cons v vs ih => simp [LegibleItems, ih]

/-- A layout that only puts blanks between tokens. -/
structure Layout.Blank (l : Layout) : Prop where
  lead : ∀ depth, ∀ c ∈ (l.lead depth).toList, isBlank c
  afterColon : ∀ c ∈ l.afterColon.toList, isBlank c

theorem Layout.compact_blank : Layout.compact.Blank :=
  ⟨fun _ => by simp [compact], by simp [compact]⟩

theorem Layout.pretty_blank : Layout.pretty.Blank where
  lead depth := by simp [pretty, isBlank]
  afterColon := by simp [pretty, isBlank]

namespace Lexer

/-- Nothing is left of the current token, or only a word that may end here. -/
inductive Settled (toks : List Token) : Lexer → Prop
  | gap : Settled toks ⟨.gap, toks.toArray⟩
  | word {before : List Token} {s : String} {v : Json} (value : ofWord? s = some v)
      (all : toks = before ++ [.scalar v]) : Settled toks ⟨.word s, before.toArray⟩

theorem Settled.read {l : Lexer} {toks : List Token} (h : l.Settled toks) {c : Char}
    (other : isWordChar c = false) : l.read c = start toks.toArray c := by
  cases h with
  | gap => rfl
  | word value all => simp [Lexer.read, other, value, all]

theorem Settled.finish? {l : Lexer} {toks : List Token} (h : l.Settled toks) :
    l.finish? = some toks.toArray := by
  cases h with
  | gap => rfl
  | word value all => simp [Lexer.finish?, value, all]

theorem start_of_blank {c : Char} (h : isBlank c = true) (toks : Array Token) :
    start toks c = some ⟨.gap, toks⟩ := by
  rw [start, if_pos h]

theorem isWordChar_of_blank {c : Char} (h : isBlank c = true) : isWordChar c = false := by
  simp only [isBlank, Bool.or_eq_true, beq_iff_eq] at h
  obtain ((rfl | rfl) | rfl) | rfl := h <;> decide

/-- A character that is a token by itself. -/
theorem start_of_punctuation {c : Char} {t : Token} (h : punctuation? c = some t)
    (toks : Array Token) : isWordChar c = false ∧ start toks c = some ⟨.gap, toks.push t⟩ := by
  unfold punctuation? at h
  split at h
  case h_7 => cases h
  all_goals
    cases h
    exact ⟨by decide, rfl⟩

/-- Two hexadecimal digits stand for a control character. -/
private theorem control_digits : ∀ n < 32,
    (hex 4 n).toList = ['0', '0', Nat.digitChar (n / 16), Nat.digitChar (n % 16)] ∧
      hexValue? (Nat.digitChar (n / 16)) = some (n / 16) ∧
      hexValue? (Nat.digitChar (n % 16)) = some (n % 16) := by
  decide

private theorem read_code {c : Char} (control : c.toNat < 32) (s : String) (toks : Array Token) :
    (hex 4 c.toNat).toList.foldlM read ⟨.coded s none 4 0, toks⟩ =
      some ⟨.quoted (s.push c) none, toks⟩ := by
  obtain ⟨digits, high, low⟩ := control_digits c.toNat control
  have value : 16 * (c.toNat / 16) + c.toNat % 16 = c.toNat := by omega
  have unit : withUnit s none c.toNat = some (.quoted (s.push c) none) := by
    rw [withUnit, if_neg (by omega), if_neg (by omega), Char.ofNat_toNat]
  have zero : hexValue? '0' = some 0 := rfl
  simp [digits, read, zero, high, low, value, unit]

/-- A character is written as a letter behind a backslash, as a number, or as itself. -/
private theorem escape_cases (c : Char) :
    (∃ letter, escape c = "\\" ++ String.singleton letter ∧ letter ≠ 'u' ∧
      unescape? letter = some c) ∨
    (c.toNat < 32 ∧ escape c = "\\u" ++ hex 4 c.toNat) ∨
    (32 ≤ c.toNat ∧ c ≠ '"' ∧ c ≠ '\\' ∧ escape c = String.singleton c) := by
  unfold escape
  split_ifs with quote backslash line ret tab back form control
  case pos => exact .inl ⟨'"', by decide, by decide, by rw [quote]; rfl⟩
  case pos => exact .inl ⟨'\\', by decide, by decide, by rw [backslash]; rfl⟩
  case pos => exact .inl ⟨'n', by decide, by decide, by rw [line]; rfl⟩
  case pos => exact .inl ⟨'r', by decide, by decide, by rw [ret]; rfl⟩
  case pos => exact .inl ⟨'t', by decide, by decide, by rw [tab]; rfl⟩
  case pos => exact .inl ⟨'b', by decide, by decide, by rw [back]; rfl⟩
  case pos => exact .inl ⟨'f', by decide, by decide, by rw [form]; rfl⟩
  case pos => exact .inr (.inl ⟨control, rfl⟩)
  case neg => exact .inr (.inr ⟨Nat.not_lt.1 control, quote, backslash, rfl⟩)

/-- What a character has been written as is read as this character. -/
theorem read_escape (c : Char) (s : String) (toks : Array Token) :
    (escape c).toList.foldlM read ⟨.quoted s none, toks⟩ =
      some ⟨.quoted (s.push c) none, toks⟩ := by
  rcases escape_cases c with ⟨letter, written, coded, value⟩ | ⟨control, written⟩ |
    ⟨printable, quote, backslash, written⟩
  · have escaped : "\\".toList = ['\\'] := rfl
    simp [written, escaped, read, coded, value]
  · have escaped : "\\u".toList = ['\\', 'u'] := rfl
    have code := read_code control s toks
    simpa [written, escaped, List.foldlM_append, read] using code
  · have plain : ¬ c.toNat < 32 := Nat.not_lt.2 printable
    simp [written, read, backslash, quote, plain]

private theorem read_escapes (cs : List Char) (out s : String) (toks : Array Token)
    (h : out.toList.foldlM read {} = some ⟨.quoted s none, toks⟩) :
    (cs.foldl (fun out c => out ++ escape c) out).toList.foldlM read {} =
      some ⟨.quoted (s ++ String.ofList cs) none, toks⟩ := by
  induction cs generalizing out s with
  | nil => simpa using h
  | cons c cs ih =>
    have first : (out ++ escape c).toList.foldlM read {} =
        some ⟨.quoted (s.push c) none, toks⟩ := by
      rw [String.toList_append, List.foldlM_append, h]
      exact read_escape c s toks
    have rest : s.push c ++ String.ofList cs = s ++ String.ofList (c :: cs) := by
      apply String.toList_inj.1
      simp
    rw [List.foldl_cons, ih _ _ first, rest]

private theorem start_of_wordChar {c : Char} (h : isWordChar c = true) (toks : Array Token) :
    start toks c = some ⟨.word (String.singleton c), toks⟩ := by
  have unblank : isBlank c = false := by
    rw [Bool.eq_false_iff]
    intro blank
    rw [isWordChar_of_blank blank] at h
    cases h
  have unquoted : c ≠ '"' := by
    rintro rfl
    cases h
  simp [start, unblank, unquoted, h]

/-- A word is read to its end, whatever it means. -/
theorem read_word {cs : List Char} (some_chars : cs ≠ []) (all : ∀ c ∈ cs, isWordChar c = true)
    (toks : Array Token) : cs.foldlM read ⟨.gap, toks⟩ = some ⟨.word (String.ofList cs), toks⟩ := by
  have more : ∀ (rest : List Char) (s : String), (∀ c ∈ rest, isWordChar c = true) →
      rest.foldlM read ⟨.word s, toks⟩ = some ⟨.word (s ++ String.ofList rest), toks⟩ := by
    intro rest
    induction rest with
    | nil => simp
    | cons c rest ih =>
      intro s all
      have next : read ⟨.word s, toks⟩ c = some ⟨.word (s.push c), toks⟩ := by
        rw [read, if_pos (all c List.mem_cons_self)]
      have joined : s.push c ++ String.ofList rest = s ++ String.ofList (c :: rest) := by
        apply String.toList_inj.1
        simp
      rw [List.foldlM_cons, next, Option.bind_eq_bind, Option.bind_some,
        ih _ (List.forall_mem_of_forall_mem_cons all), joined]
  cases cs with
  | nil => exact absurd rfl some_chars
  | cons c rest =>
    have first : read ⟨.gap, toks⟩ c = some ⟨.word (String.singleton c), toks⟩ :=
      start_of_wordChar (all c List.mem_cons_self) toks
    have joined : String.singleton c ++ String.ofList rest = String.ofList (c :: rest) := by
      apply String.toList_inj.1
      simp
    rw [List.foldlM_cons, first, Option.bind_eq_bind, Option.bind_some,
      more _ _ (List.forall_mem_of_forall_mem_cons all), joined]

theorem read_blanks {cs : List Char} (all : ∀ c ∈ cs, isBlank c = true) (toks : Array Token) :
    cs.foldlM read ⟨.gap, toks⟩ = some ⟨.gap, toks⟩ := by
  induction cs with
  | nil => rfl
  | cons c cs ih =>
    have first : read ⟨.gap, toks⟩ c = some ⟨.gap, toks⟩ :=
      start_of_blank (all c List.mem_cons_self) toks
    rw [List.foldlM_cons, first]
    exact ih (List.forall_mem_of_forall_mem_cons all)

/-- A word may end at blanks. -/
theorem Settled.read_blanks {l : Lexer} {toks : List Token} (h : l.Settled toks) {cs : List Char}
    (all : ∀ c ∈ cs, isBlank c = true) :
    ∃ l', cs.foldlM Lexer.read l = some l' ∧ l'.Settled toks := by
  cases cs with
  | nil => exact ⟨l, rfl, h⟩
  | cons c cs =>
    have blank := all c List.mem_cons_self
    have first : l.read c = some ⟨.gap, toks.toArray⟩ := by
      rw [h.read (isWordChar_of_blank blank), start_of_blank blank]
    refine ⟨_, ?_, .gap⟩
    rw [List.foldlM_cons, first]
    exact Lexer.read_blanks (List.forall_mem_of_forall_mem_cons all) toks.toArray

end Lexer

section Written
open Lexer
variable {out s : String} {toks : List Token}

/-- The tokens of `out` are these, and the next one may begin at once. -/
def Awaits (out : String) (toks : List Token) : Prop :=
  out.toList.foldlM Lexer.read {} = some ⟨.gap, toks.toArray⟩

/-- The tokens of `out` are these, if no word goes on. -/
def Settles (out : String) (toks : List Token) : Prop :=
  ∃ l : Lexer, out.toList.foldlM Lexer.read {} = some l ∧ l.Settled toks

theorem Awaits.settles (h : Awaits out toks) : Settles out toks := ⟨_, h, .gap⟩

theorem Settles.tokens? (h : Settles out toks) : tokens? out = some toks := by
  obtain ⟨l, read, settled⟩ := h
  simp [Json.tokens?, read, settled.finish?]

theorem Settles.punctuation (h : Settles out toks) {c : Char} {t : Token}
    (hc : punctuation? c = some t) : Awaits (out ++ String.singleton c) (toks ++ [t]) := by
  obtain ⟨l, read, settled⟩ := h
  obtain ⟨other, next⟩ := start_of_punctuation hc toks.toArray
  rw [Awaits, String.toList_append, List.foldlM_append, read]
  simp [settled.read other, next]

theorem Awaits.blanks (h : Awaits out toks) (all : ∀ c ∈ s.toList, isBlank c = true) :
    Awaits (out ++ s) toks := by
  rw [Awaits, String.toList_append, List.foldlM_append, h]
  exact read_blanks all toks.toArray

theorem Settles.blanks (h : Settles out toks) (all : ∀ c ∈ s.toList, isBlank c = true) :
    Settles (out ++ s) toks := by
  obtain ⟨l, read, settled⟩ := h
  obtain ⟨l', read', settled'⟩ := settled.read_blanks all
  refine ⟨l', ?_, settled'⟩
  rw [String.toList_append, List.foldlM_append, read]
  exact read'

theorem Awaits.word (h : Awaits out toks) (some_chars : s.toList ≠ [])
    (all : ∀ c ∈ s.toList, isWordChar c = true) {v : Json} (value : ofWord? s = some v) :
    Settles (out ++ s) (toks ++ [.scalar v]) := by
  refine ⟨_, ?_, .word value rfl⟩
  rw [String.toList_append, List.foldlM_append, h]
  have word := read_word some_chars all toks.toArray
  rw [String.ofList_toList] at word
  exact word

/-- A quoted text is read as this text. -/
theorem Settles.quote (h : Settles out toks) (s : String) :
    Awaits (quoteOnto out s) (toks ++ [.text s]) := by
  obtain ⟨l, read, settled⟩ := h
  have opened : (out.push '"').toList.foldlM Lexer.read {} =
      some ⟨.quoted "" none, toks.toArray⟩ := by
    rw [String.toList_push, List.foldlM_append, read]
    have first : l.read '"' = some ⟨.quoted "" none, toks.toArray⟩ :=
      settled.read (by decide)
    simp [first]
  have inside := read_escapes s.toList _ _ _ opened
  have closed : Lexer.read ⟨.quoted s none, toks.toArray⟩ '"' =
      some ⟨.gap, toks.toArray.push (.text s)⟩ := rfl
  rw [Awaits, quoteOnto, String.toList_push, List.foldlM_append, inside]
  simp [closed]

end Written

section Numbers
variable (n : Nat)

/-- The digits of a number have no useless zero in front. -/
private theorem toDigits_eq_cons (positive : 0 < n) :
    ∃ c cs, Nat.toDigits 10 n = c :: cs ∧ c ≠ '0' := by
  induction n using Nat.strongRecOn with
  | ind n ih =>
    by_cases small : n < 10
    · rw [Nat.toDigits_of_lt_base small]
      exact ⟨_, _, rfl, by simpa using Nat.ne_of_gt positive⟩
    · obtain ⟨c, cs, front, nonzero⟩ := ih (n / 10) (by omega) (by omega)
      rw [Nat.toDigits_of_base_le (by decide) (Nat.not_lt.1 small), front]
      exact ⟨_, _, rfl, nonzero⟩

private theorem isDigit_of_mem_repr {c : Char} (h : c ∈ n.repr.toList) : c.isDigit = true := by
  rw [Nat.toList_repr] at h
  exact Nat.isDigit_of_mem_toDigits (by decide) (by decide) h

private theorem isWordChar_of_digit {c : Char} (h : c ∈ n.repr.toList) : isWordChar c = true := by
  simp [isWordChar, Char.isAlphanum, isDigit_of_mem_repr n h]

theorem isNumeral_repr : isNumeral n.repr.toList = true := by
  have digits := @isDigit_of_mem_repr n
  rw [Nat.toList_repr] at digits ⊢
  rcases Nat.eq_zero_or_pos n with rfl | positive
  · rfl
  · obtain ⟨c, cs, all, nonzero⟩ := toDigits_eq_cons n positive
    rw [all] at digits ⊢
    have first : c.isDigit = true := digits List.mem_cons_self
    have unsigned : c ≠ '-' := by
      rintro rfl
      cases first
    have rest : (c :: cs).dropWhile Char.isDigit = [] :=
      List.dropWhile_eq_nil_iff.2 fun _ h => digits h
    simp [isNumeral, isUnsigned, unsigned, nonzero, first, rest, isNumeralTail,
      isNumeralTail.isExponent]

/-- A number is read from its digits. -/
theorem ofWord?_repr : ofWord? n.repr = some (.nat n) := by
  have other {s : String} {c : Char} (h : c ∈ s.toList) (letter : c.isDigit = false) :
      n.repr ≠ s := by
    rintro rfl
    rw [isDigit_of_mem_repr n h] at letter
    cases letter
  have digits : n.repr.toList.all Char.isDigit = true :=
    List.all_eq_true.2 fun _ h => isDigit_of_mem_repr n h
  have value : Nat.ofDigitChars 10 n.repr.toList 0 = n := by
    rw [Nat.toList_repr, Nat.ofDigitChars_ten_toDigits]
  rw [ofWord?, if_neg (other (c := 'n') (by decide) rfl), if_neg (other (c := 't') (by decide) rfl),
    if_neg (other (c := 'f') (by decide) rfl)]
  simp only [isNumeral_repr, digits, value, Bool.not_true, Bool.false_eq_true, if_false, if_true]

end Numbers

section Printed
variable {l : Layout} (hl : l.Blank)
include hl

mutual

theorem settles_printOnto (depth : Nat) (v : Json) (legible : v.Legible) {out : String}
    {toks : List Token} (h : Awaits out toks) :
    Settles (printOnto l depth out v) (toks ++ spelling v) := by
  cases v with
  | null => exact h.word (by simp) (List.all_eq_true.1 rfl) rfl
  | bool b => cases b <;> exact h.word (by simp) (List.all_eq_true.1 rfl) rfl
  | nat n =>
    have all : ∀ c ∈ n.repr.toList, isWordChar c = true := fun c hc => isWordChar_of_digit n hc
    exact h.word (by simp) all (ofWord?_repr n)
  | numeral text => exact h.word legible.1.1 legible.1.2 legible.2
  | str s => exact (h.settles.quote s).settles
  | arr vs =>
    have opened := h.settles.punctuation (c := '[') rfl
    cases vs with
    | nil =>
      have closed := opened.settles.punctuation (c := ']') rfl
      simpa [printOnto, spelling, String.append_assoc] using closed.settles
    | cons v vs =>
      have first := settles_printOnto (depth + 1) v legible.1 (opened.blanks (hl.lead (depth + 1)))
      have rest := settles_printItems (depth + 1) vs legible.2 first
      have closed := (rest.blanks (hl.lead depth)).punctuation (c := ']') rfl
      simpa [printOnto, spelling] using closed.settles
  | obj fs =>
    have opened := h.settles.punctuation (c := '\x7b') rfl
    cases fs with
    | nil =>
      have closed := opened.settles.punctuation (c := '\x7d') rfl
      simpa [printOnto, spelling, String.append_assoc] using closed.settles
    | cons f fs =>
      obtain ⟨k, v⟩ := f
      have key := (opened.blanks (hl.lead (depth + 1))).settles.quote k
      have begun := (key.settles.punctuation (c := ':') rfl).blanks hl.afterColon
      have first := settles_printOnto (depth + 1) v legible.1 begun
      have rest := settles_printFields (depth + 1) fs legible.2 first
      have closed := (rest.blanks (hl.lead depth)).punctuation (c := '\x7d') rfl
      simpa [printOnto, spelling] using closed.settles

theorem settles_printItems (depth : Nat) (vs : List Json) (legible : LegibleItems vs)
    {out : String} {toks : List Token} (h : Settles out toks) :
    Settles (printItems l depth out vs) (toks ++ itemSpelling vs) := by
  cases vs with
  | nil => simpa [printItems, itemSpelling] using h
  | cons v vs =>
    have opened := (h.punctuation (c := ',') rfl).blanks (hl.lead depth)
    have first := settles_printOnto depth v legible.1 opened
    have rest := settles_printItems depth vs legible.2 first
    simpa [printItems, itemSpelling] using rest

theorem settles_printFields (depth : Nat) (fs : List (String × Json)) (legible : LegibleFields fs)
    {out : String} {toks : List Token} (h : Settles out toks) :
    Settles (printFields l depth out fs) (toks ++ fieldSpelling fs) := by
  cases fs with
  | nil => simpa [printFields, fieldSpelling] using h
  | cons f fs =>
    obtain ⟨k, v⟩ := f
    have key := ((h.punctuation (c := ',') rfl).blanks (hl.lead depth)).settles.quote k
    have opened := (key.settles.punctuation (c := ':') rfl).blanks hl.afterColon
    have first := settles_printOnto depth v legible.1 opened
    have rest := settles_printFields depth fs legible.2 first
    simpa [printFields, fieldSpelling] using rest

end

/-- A printed text is read as the tokens of the value. -/
theorem tokens?_print {v : Json} (legible : v.Legible) :
    tokens? (print l v) = some (spelling v) := by
  have nothing : Awaits "" [] := rfl
  exact (settles_printOnto hl 0 v legible nothing).tokens?

end Printed

end LittleComputer.Json
