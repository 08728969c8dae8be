import Mathlib.Data.List.Nodup
import LittleComputer.Instruction.Form

/-! Which JSON is accepted for a type, said of the JSON alone. A shape tells what has to be there,
and what is written again of a value that has more. -/
namespace LittleComputer.Json

structure Shape where
  /-- All that is required is there, and every number and name is one of those allowed. -/
  fits : Json → Prop
  /-- No record is an array or has a field twice, and no name is an object. -/
  plain : Json → Prop
  /-- What is required, and nothing else, in the order in which it is written. -/
  tidy : Json → Json

namespace Shape

def number (bound : Nat) : Shape where
  fits v := ∃ n < bound, v = .nat n
  plain _ := True
  tidy v := v

def name (names : List String) : Shape where
  fits v := ∃ s ∈ names, v = .str s
  plain v := ∀ fields, v ≠ .obj fields
  tidy v := v

def row (count : Nat) (item : Shape) : Shape where
  fits v := ∃ items, v = .arr items ∧ items.length = count ∧ ∀ x ∈ items, item.fits x
  plain v := ∀ items, v = .arr items → ∀ x ∈ items, item.plain x
  tidy
    | .arr items => .arr (items.map item.tidy)
    | v => v

def record (fields : List (String × Shape)) : Shape where
  fits v := ∃ given, v = .obj given ∧ ∀ f ∈ fields, ∃ w, (f.1, w) ∈ given ∧ f.2.fits w
  plain v := (∀ items, v ≠ .arr items) ∧ ∀ given, v = .obj given →
    (given.map Prod.fst).Nodup ∧ ∀ f ∈ fields, ∀ w, (f.1, w) ∈ given → f.2.plain w
  tidy
    | .obj given =>
      .obj (fields.filterMap fun f => (unique? given f.1).map fun w => (f.1, f.2.tidy w))
    | v => v

/-- An object with one key, which says what is in it. -/
def choice (cases : List (String × Shape)) : Shape where
  fits v := ∃ c ∈ cases, ∃ body, v = .obj [(c.1, body)] ∧ c.2.fits body
  plain v := ∀ c ∈ cases, ∀ body, v = .obj [(c.1, body)] → c.2.plain body
  tidy
    | .obj [(key, body)] =>
      .obj [(key, ((cases.find? (·.1 == key)).map fun c => c.2.tidy body).getD body)]
    | v => v

end Shape

/-- Of plain values those are read that fit, and what is read shows as the tidy value. -/
structure Reads {α : Type} (s : Shape) (read : Json → Option α) (shows : α → Json → Prop) :
    Prop where
  accepted : ∀ v, s.plain v → ((∃ x, read v = some x) ↔ s.fits v)
  tidied : ∀ v x, s.plain v → read v = some x → shows x (s.tidy v)

theorem Reads.congr {α : Type} {s : Shape} {read read' : Json → Option α}
    {shows : α → Json → Prop} (h : Reads s read shows) (same : ∀ v, s.plain v → read' v = read v) :
    Reads s read' shows where
  accepted v plain := by
    rw [same v plain]
    exact h.accepted v plain
  tidied v x plain hx := h.tidied v x plain ((same v plain).symm.trans hx)

/-- A value shows as what is written for it. -/
def WrittenAs {α : Type} [JsonForm α] (x : α) (v : Json) : Prop := JsonForm.toJson x = v

/-- A value in a wrapper that is not stored is read as the value. -/
theorem Reads.map {α β : Type} [JsonForm α] {s : Shape} {shows : β → Json → Prop} {f : α → β}
    (h : Reads s (JsonForm.ofJson? (α := α)) WrittenAs)
    (written : ∀ x, shows (f x) (JsonForm.toJson x)) :
    Reads s (fun v => (JsonForm.ofJson? v).map f) shows where
  accepted v plain := by
    rw [← h.accepted v plain]
    simp
  tidied v y plain hy := by
    obtain ⟨x, hx, rfl⟩ := Option.map_eq_some_iff.1 hy
    have same : JsonForm.toJson x = s.tidy v := h.tidied v x plain hx
    exact same ▸ written x

section Fields
variable {given : List (String × Json)} (distinct : (given.map Prod.fst).Nodup) {key : String}
include distinct

/-- Where no key occurs twice, a field is found if it is there. -/
theorem unique?_eq_some {v : Json} : unique? given key = some v ↔ (key, v) ∈ given := by
  induction given with
  | nil => simp [unique?]
  | cons f given ih =>
    obtain ⟨key', v'⟩ := f
    rw [List.map_cons, List.nodup_cons] at distinct
    obtain ⟨new, distinct⟩ := distinct
    by_cases same : key' = key
    · subst same
      have others : given.filter (fun f => f.1 == key') = [] := by
        rw [List.filter_eq_nil_iff]
        intro f hf again
        exact new (List.mem_map.2 ⟨f, hf, beq_iff_eq.1 again⟩)
      have absent : (key', v) ∉ given := fun h => new (List.mem_map.2 ⟨_, h, rfl⟩)
      simp [unique?, others, absent, eq_comm]
    · have skipped : unique? ((key', v') :: given) key = unique? given key := by
        simp [unique?, same]
      rw [skipped, ih distinct, List.mem_cons]
      simp [Ne.symm same]

end Fields

/-- The value in a field of a record. -/
def part? (α : Type) [JsonForm α] (given : List (String × Json)) (key : String) : Option α :=
  (unique? given key).bind JsonForm.ofJson?

section Parts
variable {α β γ δ : Type} [JsonForm α] [JsonForm β] [JsonForm γ]
  {given : List (String × Json)} {a b c : String} {d : δ}
open Instruction

theorem read1_eq_some {f : α → δ} :
    read1 contents? f a (.obj given) = some d ↔ ∃ x, part? α given a = some x ∧ f x = d := by
  simp only [read1, contents?, List.mapM_cons, List.mapM_nil, part?]
  cases unique? given a <;> simp [Option.bind_eq_some_iff]

theorem read2_eq_some {f : α → β → δ} :
    read2 contents? f a b (.obj given) = some d ↔
      ∃ x y, part? α given a = some x ∧ part? β given b = some y ∧ f x y = d := by
  simp only [read2, contents?, List.mapM_cons, List.mapM_nil, part?]
  cases unique? given a <;> cases unique? given b <;> simp [Option.bind_eq_some_iff]

theorem read3_eq_some {f : α → β → γ → δ} :
    read3 contents? f a b c (.obj given) = some d ↔
      ∃ x y z, part? α given a = some x ∧ part? β given b = some y ∧ part? γ given c = some z ∧
        f x y z = d := by
  simp only [read3, contents?, List.mapM_cons, List.mapM_nil, part?]
  cases unique? given a <;> cases unique? given b <;> cases unique? given c <;>
    simp [Option.bind_eq_some_iff]

/-- What is read of a field of its own shape. -/
theorem Reads.part {s : Shape} (h : Reads s (JsonForm.ofJson? (α := α)) WrittenAs)
    (distinct : (given.map Prod.fst).Nodup) (plain : ∀ w, (a, w) ∈ given → s.plain w) :
    ((∃ x, part? α given a = some x) ↔ ∃ w, (a, w) ∈ given ∧ s.fits w) ∧
      ∀ x, part? α given a = some x →
        (unique? given a).map (fun w => (a, s.tidy w)) = some (a, JsonForm.toJson x) := by
  constructor
  · constructor
    · rintro ⟨x, hx⟩
      obtain ⟨w, hw, hx⟩ := Option.bind_eq_some_iff.1 hx
      have there := (unique?_eq_some distinct).1 hw
      exact ⟨w, there, (h.accepted w (plain w there)).1 ⟨x, hx⟩⟩
    · rintro ⟨w, there, fits⟩
      obtain ⟨x, hx⟩ := (h.accepted w (plain w there)).2 fits
      exact ⟨x, Option.bind_eq_some_iff.2 ⟨w, (unique?_eq_some distinct).2 there, hx⟩⟩
  · intro x hx
    obtain ⟨w, hw, hx⟩ := Option.bind_eq_some_iff.1 hx
    have written := h.tidied w x (plain w ((unique?_eq_some distinct).1 hw)) hx
    rw [hw, written]
    rfl

/-- A record is read as its fields are, if nothing but an object is one. -/
theorem reads_record {fields : List (String × Shape)} {read : Json → Option δ}
    {shows : δ → Json → Prop} (object : ∀ v d, read v = some d → ∃ given, v = .obj given)
    (accepted : ∀ given, (given.map Prod.fst).Nodup →
      (∀ f ∈ fields, ∀ w, (f.1, w) ∈ given → f.2.plain w) →
      ((∃ d, read (.obj given) = some d) ↔ ∀ f ∈ fields, ∃ w, (f.1, w) ∈ given ∧ f.2.fits w) ∧
      ∀ d, read (.obj given) = some d → shows d ((Shape.record fields).tidy (.obj given))) :
    Reads (.record fields) read shows where
  accepted v plain := by
    constructor
    · rintro ⟨d, hd⟩
      obtain ⟨given, rfl⟩ := object v d hd
      obtain ⟨distinct, contents⟩ := plain.2 given rfl
      exact ⟨given, rfl, (accepted given distinct contents).1.1 ⟨d, hd⟩⟩
    · rintro ⟨given, rfl, fits⟩
      obtain ⟨distinct, contents⟩ := plain.2 given rfl
      exact (accepted given distinct contents).1.2 fits
  tidied v d plain hd := by
    obtain ⟨given, rfl⟩ := object v d hd
    obtain ⟨distinct, contents⟩ := plain.2 given rfl
    exact (accepted given distinct contents).2 d hd

variable {A B C : Shape} {shows : δ → Json → Prop}
  (hA : Reads A (JsonForm.ofJson? (α := α)) WrittenAs)
  (hB : Reads B (JsonForm.ofJson? (α := β)) WrittenAs)
  (hC : Reads C (JsonForm.ofJson? (α := γ)) WrittenAs)
include hA

theorem reads_read1 {f : α → δ} (written : ∀ x, shows (f x) (.obj [(a, JsonForm.toJson x)])) :
    Reads (.record [(a, A)]) (read1 contents? f a) shows := by
  refine reads_record ?_ fun given distinct plain => ?_
  · intro v d h
    cases v with
    | obj given => exact ⟨given, rfl⟩
    | _ => cases h
  · simp only [List.forall_mem_cons] at plain
    have pa := hA.part distinct plain.1
    refine ⟨by simp [read1_eq_some, ← pa.1], fun d h => ?_⟩
    obtain ⟨x, hx, rfl⟩ := read1_eq_some.1 h
    simpa [Shape.record, pa.2 x hx] using written x

include hB

theorem reads_read2 {f : α → β → δ}
    (written : ∀ x y, shows (f x y) (.obj [(a, JsonForm.toJson x), (b, JsonForm.toJson y)])) :
    Reads (.record [(a, A), (b, B)]) (read2 contents? f a b) shows := by
  refine reads_record ?_ fun given distinct plain => ?_
  · intro v d h
    cases v with
    | obj given => exact ⟨given, rfl⟩
    | _ => cases h
  · simp only [List.forall_mem_cons] at plain
    have pa := hA.part distinct plain.1
    have pb := hB.part distinct plain.2.1
    refine ⟨by simp [read2_eq_some, ← pa.1, ← pb.1], fun d h => ?_⟩
    obtain ⟨x, y, hx, hy, rfl⟩ := read2_eq_some.1 h
    simpa [Shape.record, pa.2 x hx, pb.2 y hy] using written x y

include hC

theorem reads_read3 {f : α → β → γ → δ}
    (written : ∀ x y z, shows (f x y z)
      (.obj [(a, JsonForm.toJson x), (b, JsonForm.toJson y), (c, JsonForm.toJson z)])) :
    Reads (.record [(a, A), (b, B), (c, C)]) (read3 contents? f a b c) shows := by
  refine reads_record ?_ fun given distinct plain => ?_
  · intro v d h
    cases v with
    | obj given => exact ⟨given, rfl⟩
    | _ => cases h
  · simp only [List.forall_mem_cons] at plain
    have pa := hA.part distinct plain.1
    have pb := hB.part distinct plain.2.1
    have pc := hC.part distinct plain.2.2.1
    refine ⟨by simp [read3_eq_some, ← pa.1, ← pb.1, ← pc.1], fun d h => ?_⟩
    obtain ⟨x, y, z, hx, hy, hz, rfl⟩ := read3_eq_some.1 h
    simpa [Shape.record, pa.2 x hx, pb.2 y hy, pc.2 z hz] using written x y z

end Parts

section Choices
variable {α : Type} {cases : List (String × Shape)} (distinct : (cases.map Prod.fst).Nodup)
include distinct

/-- Of cases with different keys the one with its key is found. -/
theorem tidy_choice {c : String × Shape} (hc : c ∈ cases) (body : Json) :
    (Shape.choice cases).tidy (.obj [(c.1, body)]) = .obj [(c.1, c.2.tidy body)] := by
  have found : cases.find? (·.1 == c.1) = some c := by
    obtain ⟨before, after, rfl⟩ := List.append_of_mem hc
    rw [List.find?_eq_some_iff_append]
    refine ⟨beq_self_eq_true _, before, after, rfl, fun d hd => ?_⟩
    rw [List.map_append, List.nodup_append] at distinct
    have other := distinct.2.2 _ (List.mem_map_of_mem hd) c.1 (by simp)
    simpa using other
  rw [Shape.choice]
  simp only [found]
  rfl

/-- An object with one key is read by its case. -/
theorem reads_choice {read : Json → Option α} (pick : String → Json → Option α)
    {shows : α → Json → Prop} (object : ∀ v x, read v = some x → ∃ key body, v = .obj [(key, body)])
    (single : ∀ key body, read (.obj [(key, body)]) = pick key body)
    (known : ∀ key body x, pick key body = some x → key ∈ cases.map Prod.fst)
    (each : ∀ c ∈ cases, Reads c.2 (pick c.1) fun x w => shows x (.obj [(c.1, w)])) :
    Reads (.choice cases) read shows := by
  have taken {v : Json} {x : α} (h : read v = some x) :
      ∃ c ∈ cases, ∃ body, v = .obj [(c.1, body)] ∧ pick c.1 body = some x := by
    obtain ⟨key, body, rfl⟩ := object v x h
    rw [single] at h
    obtain ⟨c, hc, rfl⟩ := List.mem_map.1 (known key body x h)
    exact ⟨c, hc, body, rfl, h⟩
  constructor
  · intro v plain
    constructor
    · rintro ⟨x, hx⟩
      obtain ⟨c, hc, body, rfl, picked⟩ := taken hx
      have fits := ((each c hc).accepted body (plain c hc body rfl)).1 ⟨x, picked⟩
      exact ⟨c, hc, body, rfl, fits⟩
    · rintro ⟨c, hc, body, rfl, fits⟩
      rw [single]
      exact ((each c hc).accepted body (plain c hc body rfl)).2 fits
  · intro v x plain hx
    obtain ⟨c, hc, body, rfl, picked⟩ := taken hx
    rw [tidy_choice distinct hc]
    exact (each c hc).tidied body x (plain c hc body rfl) picked

end Choices

end LittleComputer.Json
