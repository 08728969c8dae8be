import Mathlib.Data.List.Induction
import Mathlib.Order.Interval.Set.Basic
import LittleComputer.Image
import LittleComputer.Proofs.Word.Fields

/-! The format of images, without the reading of it: words with the more significant byte first, the
first of them the origin. Reading accepts exactly such bytes, as long as the words lie within the
memory and clear of the keyboard, and has one complaint about any others. -/
namespace LittleComputer.Image

/-- The two bytes of a word, the more significant first. -/
def bigEndian (w : Word) : List Byte := [UInt8.ofNat (w.toNat / 256), UInt8.ofNat (w.toNat % 256)]

/-- The bytes of an origin and of the words behind it. -/
def serialised (origin : Word) (words : List Word) : List Byte :=
  (origin :: words).flatMap bigEndian

/-- The addresses of `count` words from `origin` on. They are numbers, as the last may lie beyond
the memory. -/
def span (origin : Word) (count : Nat) : Set Nat := Set.Ico origin.toNat (origin.toNat + count)

theorem covers_iff (origin : Word) (count : Nat) (a : Word) :
    covers origin count a = true ↔ a.toNat ∈ span origin count := by
  simp [covers, span]

theorem bigEndian_wordOfBytes (high low : Byte) :
    bigEndian (wordOfBytes low high) = [high, low] := by
  have hl := low.toNat_lt
  have h1 : (256 * high.toNat + low.toNat) / 256 = high.toNat := by omega
  have h2 : (256 * high.toNat + low.toNat) % 256 = low.toNat := by omega
  rw [bigEndian, toNat_wordOfBytes, h1, h2, UInt8.ofNat_toNat, UInt8.ofNat_toNat]

theorem wordOfBytes_bigEndian (w : Word) :
    wordOfBytes (UInt8.ofNat (w.toNat % 256)) (UInt8.ofNat (w.toNat / 256)) = w := by
  have hw := w.toNat_lt
  apply UInt16.toNat_inj.1
  rw [toNat_wordOfBytes, UInt8.toNat_ofNat', UInt8.toNat_ofNat']
  omega

theorem wordBytes_eq (w : Word) : wordBytes w = bigEndian w := by
  have hw := w.toNat_lt
  have hh : highByte w = UInt8.ofNat (w.toNat / 256) := by
    apply UInt8.toNat_inj.1
    rw [UInt8.toNat_ofNat', highByte]
    simp [Nat.shiftRight_eq_div_pow]
  have hl : lowByte w = UInt8.ofNat (w.toNat % 256) := by
    apply UInt8.toNat_inj.1
    rw [UInt8.toNat_ofNat', lowByte]
    simp
  rw [wordBytes, hh, hl, bigEndian]

theorem toBytes_eq (i : Image) : i.toBytes = serialised i.origin i.words := by
  rw [toBytes, serialised, List.flatMap_cons, wordBytes_eq, funext wordBytes_eq]

theorem wordsOnto_flatMap (before : Array Word) (words : List Word) :
    wordsOnto before (words.flatMap bigEndian) = before ++ words := by
  induction words generalizing before with
  | nil => simp [wordsOnto]
  | cons w words ih =>
    have hb : (w :: words).flatMap bigEndian = bigEndian w ++ words.flatMap bigEndian :=
      List.flatMap_cons
    rw [hb, bigEndian, List.cons_append, List.cons_append, List.nil_append, wordsOnto,
      wordOfBytes_bigEndian, ih]
    simp

theorem length_flatMap_bigEndian (words : List Word) :
    (words.flatMap bigEndian).length = 2 * words.length := by
  induction words with
  | nil => rfl
  | cons w words ih =>
    rw [List.flatMap_cons, List.length_append, ih, List.length_cons]
    change 2 + 2 * words.length = _
    omega

/-- Bytes that come in pairs are those of some words. -/
theorem exists_flatMap_eq {bytes : List Byte} (even : bytes.length % 2 = 0) :
    ∃ words : List Word, bytes = words.flatMap bigEndian := by
  induction bytes using List.twoStepInduction with
  | nil => exact ⟨[], rfl⟩
  | singleton b => simp at even
  | cons_cons high low rest ih _ =>
    have hr : rest.length % 2 = 0 := by
      simp only [List.length_cons] at even
      omega
    obtain ⟨words, rfl⟩ := ih hr
    exact ⟨wordOfBytes low high :: words, by
      rw [List.flatMap_cons, bigEndian_wordOfBytes, List.cons_append, List.cons_append,
        List.nil_append]⟩

theorem exists_serialised_iff {bytes : List Byte} :
    (∃ origin words, bytes = serialised origin words) ↔
      2 ≤ bytes.length ∧ bytes.length % 2 = 0 := by
  constructor
  · rintro ⟨origin, words, rfl⟩
    rw [serialised, length_flatMap_bigEndian, List.length_cons]
    omega
  · rintro ⟨long, even⟩
    obtain ⟨words, rfl⟩ := exists_flatMap_eq even
    cases words with
    | nil => cases long
    | cons origin words => exact ⟨origin, words, rfl⟩

/-- Bytes that are not in the format are too few or end within a word. -/
theorem ofBytes_of_unpaired {bytes : List Byte} (h : ¬ (2 ≤ bytes.length ∧ bytes.length % 2 = 0)) :
    ofBytes bytes =
      .error (if bytes.length < 2 then .missingOrigin else .truncated bytes.length) := by
  match bytes, h with
  | [], _ => rfl
  | [_], _ => rfl
  | high :: low :: rest, h =>
    have hr : ¬ rest.length % 2 = 0 := by
      simp only [List.length_cons] at h
      omega
    have hl : ¬ (high :: low :: rest).length < 2 := by simp
    rw [ofBytes, if_neg hr, if_neg hl]
    rfl

/-- Of bytes in the format only the place of the words is left to be checked. -/
theorem ofBytes_serialised (origin : Word) (words : List Word) :
    ofBytes (serialised origin words) = place origin words := by
  have hr : (words.flatMap bigEndian).length % 2 = 0 := by
    rw [length_flatMap_bigEndian]
    omega
  have hw : (wordsOnto #[] (words.flatMap bigEndian)).toList = words := by
    rw [wordsOnto_flatMap]
    simp
  rw [serialised, List.flatMap_cons, bigEndian, List.cons_append, List.cons_append,
    List.nil_append, ofBytes, if_pos hr, wordOfBytes_bigEndian, hw]

theorem serialised_inj {origin origin' : Word} {words words' : List Word} :
    serialised origin words = serialised origin' words' ↔ origin = origin' ∧ words = words' := by
  constructor
  · intro h
    have hw := congrArg (wordsOnto #[]) h
    simp only [serialised, wordsOnto_flatMap] at hw
    simpa using hw
  · rintro ⟨rfl, rfl⟩
    rfl

/-- What comes of placing words: they may be placed, or they do not fit, or they cover the
keyboard. -/
inductive Placing (origin : Word) (words : List Word) : Except Error Image → Prop
  | image {i : Image} (fits : origin.toNat + words.length ≤ 65536)
      (status : 0xFE00 ∉ span origin words.length) (data : 0xFE02 ∉ span origin words.length)
      (origin_eq : i.origin = origin) (words_eq : i.words = words) : Placing origin words (.ok i)
  | tooLarge (long : 65536 < origin.toNat + words.length) :
      Placing origin words (.error (.tooLarge origin words.length))
  | coversKeyboard (fits : origin.toNat + words.length ≤ 65536)
      (covering : 0xFE00 ∈ span origin words.length ∨ 0xFE02 ∈ span origin words.length) :
      Placing origin words (.error (.coversKeyboard origin words.length))

theorem placing (origin : Word) (words : List Word) :
    Placing origin words (place origin words) := by
  have status := covers_iff origin words.length keyStatus
  have data := covers_iff origin words.length keyData
  change _ ↔ 0xFE00 ∈ _ at status
  change _ ↔ 0xFE02 ∈ _ at data
  rw [place]
  split
  next fits =>
    split
    next clear =>
      rw [clear.1, Bool.false_eq_true, false_iff] at status
      rw [clear.2, Bool.false_eq_true, false_iff] at data
      exact .image fits status data rfl rfl
    next covering =>
      rw [← Bool.not_eq_true, ← Bool.not_eq_true, status, data, ← not_or, not_not] at covering
      exact .coversKeyboard fits covering
  next long => exact .tooLarge (Nat.not_le.1 long)

theorem place_origin_words (i : Image) : place i.origin i.words = .ok i := by
  rw [place, dif_pos i.fits, dif_pos ⟨i.clearOfStatus, i.clearOfData⟩]

/-- What has to be said of bytes, whatever they are: the image, or the first thing that is wrong
with them. -/
structure Verdict (bytes : List Byte) (said : Except Error Image) : Prop where
  image : ∀ origin words, (∃ i, said = .ok i ∧ i.origin = origin ∧ i.words = words) ↔
    bytes = serialised origin words ∧ origin.toNat + words.length ≤ 65536 ∧
      0xFE00 ∉ span origin words.length ∧ 0xFE02 ∉ span origin words.length
  missingOrigin : said = .error .missingOrigin ↔ bytes.length < 2
  truncated : ∀ n, said = .error (.truncated n) ↔ n = bytes.length ∧ 3 ≤ n ∧ n % 2 = 1
  /-- All other bytes hold an origin and some words. -/
  paired : (∃ origin words, bytes = serialised origin words) ↔
    2 ≤ bytes.length ∧ bytes.length % 2 = 0
  tooLarge : ∀ origin n, said = .error (.tooLarge origin n) ↔
    ∃ words, bytes = serialised origin words ∧ n = words.length ∧ 65536 < origin.toNat + n
  coversKeyboard : ∀ origin n, said = .error (.coversKeyboard origin n) ↔
    ∃ words, bytes = serialised origin words ∧ n = words.length ∧ origin.toNat + n ≤ 65536 ∧
      (0xFE00 ∈ span origin n ∨ 0xFE02 ∈ span origin n)

private theorem verdict_of_unpaired {bytes : List Byte}
    (h : ¬ (2 ≤ bytes.length ∧ bytes.length % 2 = 0)) :
    Verdict bytes
      (.error (if bytes.length < 2 then .missingOrigin else .truncated bytes.length)) := by
  have unpaired (origin : Word) (words : List Word) : bytes ≠ serialised origin words :=
    fun heq => h (exists_serialised_iff.1 ⟨origin, words, heq⟩)
  constructor
  case paired => exact exists_serialised_iff
  case image | missingOrigin | truncated | tooLarge | coversKeyboard => grind

private theorem verdict_of_placing {origin : Word} {words : List Word}
    {said : Except Error Image} (h : Placing origin words said) :
    Verdict (serialised origin words) said := by
  have paired := exists_serialised_iff.1 ⟨origin, words, rfl⟩
  constructor
  case paired => exact exists_serialised_iff
  case missingOrigin | truncated => cases h <;> grind
  -- The bytes determine the origin and the words that they were written for.
  case image | tooLarge | coversKeyboard => cases h <;> grind [serialised_inj]

theorem verdict (bytes : List Byte) : Verdict bytes (ofBytes bytes) := by
  by_cases h : 2 ≤ bytes.length ∧ bytes.length % 2 = 0
  · obtain ⟨origin, words, rfl⟩ := exists_serialised_iff.2 h
    rw [ofBytes_serialised]
    exact verdict_of_placing (placing origin words)
  · rw [ofBytes_of_unpaired h]
    exact verdict_of_unpaired h

/-- Bytes are read as an image exactly if they are its bytes. -/
theorem ofBytes_eq_ok {bytes : List Byte} {i : Image} :
    ofBytes bytes = .ok i ↔ bytes = i.toBytes := by
  rw [toBytes_eq]
  constructor
  · intro h
    exact (((verdict bytes).image i.origin i.words).1 ⟨i, h, rfl, rfl⟩).1
  · rintro rfl
    rw [ofBytes_serialised, place_origin_words]

/-- Nothing but the bytes of an image is read as one, other bytes are refused for the first thing
that is wrong with them, and an image without words may be placed anywhere. -/
theorem ofBytes_exact :
    (∀ bytes, Verdict bytes (ofBytes bytes)) ∧
      (∀ bytes i, ofBytes bytes = .ok i ↔ bytes = i.toBytes) ∧
      ∀ origin, ∃ i, ofBytes (bigEndian origin) = .ok i ∧ i.origin = origin ∧ i.words = [] := by
  refine ⟨verdict, fun _ _ => ofBytes_eq_ok, fun origin => ?_⟩
  have room := origin.toNat_lt
  apply ((verdict (bigEndian origin)).image origin []).2
  refine ⟨by simp [serialised], ?_, ?_, ?_⟩
  · exact room.le
  · simp [span]
  · simp [span]

/-- One word has room between the keyboard's registers. -/
example : ∃ i, ofBytes [0xFE, 0x01, 0x12, 0x34] = .ok i := ⟨_, rfl⟩

end LittleComputer.Image
