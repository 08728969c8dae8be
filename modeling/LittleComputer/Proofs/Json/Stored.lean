import LittleComputer.Proofs.Json.Lexing
import LittleComputer.Proofs.Json.Shape

/-! Types whose values are stored in a shape: numbers, names, rows, records and choices. What is
written for a value is read back as this value, and of all JSON in object form nothing is accepted
but what fits. -/
namespace LittleComputer
open JsonForm Json

/-- What is kept of a value is read as this value, whether or not it has been printed. -/
structure Kept {α : Type} (s : Shape) (read : Json → Option α) (x : α) (v : Json) : Prop where
  back : read v = some x
  plain : s.plain v
  legible : v.Legible

theorem Kept.map {α β : Type} [JsonForm α] {s : Shape} {x : α} {v : Json}
    (h : Kept s ofJson? x v) (f : α → β) : Kept s (fun v => (ofJson? v).map f) (f x) v :=
  ⟨congrArg (Option.map f) h.back, h.plain, h.legible⟩

/-- The values of a type are stored in a shape. -/
structure Stored (α : Type) [JsonForm α] (s : Shape) : Prop where
  reads : Reads s (ofJson? (α := α)) WrittenAs
  kept : ∀ x : α, Kept s ofJson? x (toJson x)

section Numbers
variable {α : Type} [JsonForm α] {n : Nat}

theorem stored_number (ofFin : Fin n → α) (toFin : α → Fin n)
    (left : ∀ x, ofFin (toFin x) = x) (right : ∀ k, toFin (ofFin k) = k)
    (written : ∀ x, toJson x = .nat (toFin x))
    (read : ∀ v, (ofJson? v : Option α) = (boundedNat? n v).map ofFin) :
    Stored α (.number n) where
  reads := by
    constructor
    · intro v _
      rw [read]
      cases v with
      | nat k => by_cases within : k < n <;> simp [boundedNat?, Shape.number, within]
      | _ => simp [boundedNat?, Shape.number]
    · intro v x _ h
      rw [read] at h
      cases v with
      | nat k =>
        by_cases within : k < n
        · simp only [boundedNat?, within, dite_true, Option.map_some, Option.some.injEq] at h
          rw [WrittenAs, written, ← h, right]
          rfl
        · simp [boundedNat?, within] at h
      | _ => simp [boundedNat?] at h
  kept x := by
    rw [written]
    refine ⟨?_, trivial, trivial⟩
    rw [read]
    simp [boundedNat?, left]

end Numbers

section Names
variable {α : Type} [Named α]

theorem Named.name_of_ofName? {s : String} {x : α} (h : Named.ofName? s = some x) :
    Named.name x = s := by
  have same : (Named.name x == s) = true :=
    List.find?_some (p := fun a : α => Named.name a == s) h
  exact beq_iff_eq.1 same

theorem Named.exists_ofName? {s : String} : (∃ x : α, Named.ofName? s = some x) ↔
    s ∈ (Named.all : List α).map Named.name := by
  rw [← Option.isSome_iff_exists, Named.ofName?, List.find?_isSome, List.mem_map]
  simp

/-- A type whose values all go by their own names. -/
theorem stored_name (unique : ∀ x : α, Named.ofName? (Named.name x) = some x) :
    @Stored α JsonForm.ofNamed (.name ((Named.all : List α).map Named.name)) := by
  let := JsonForm.ofNamed (α := α)
  constructor
  case reads =>
    constructor
    · intro v plain
      cases v with
      | str s =>
        change (∃ x : α, Named.ofName? s = some x) ↔ _
        rw [Named.exists_ofName?]
        simp only [Shape.name, Json.str.injEq, exists_eq_right']
      | obj fields => exact absurd rfl (plain fields)
      | _ => simp [Shape.name, ofJson?]
    · intro v x plain h
      cases v with
      | str s => exact congrArg Json.str (Named.name_of_ofName? h)
      | obj fields => exact absurd rfl (plain fields)
      | _ => cases h
  case kept => exact fun x => ⟨unique x, fun fields => Json.noConfusion, trivial⟩

end Names

section Rows
variable {α β γ δ : Type} [JsonForm α]

theorem mapM_eq_some {f : β → Option γ} {xs : List β} {ys : List γ} :
    xs.mapM f = some ys ↔ xs.map f = ys.map some := by
  induction xs generalizing ys with
  | nil => cases ys <;> simp
  | cons x xs ih => cases ys <;> simp [Option.bind_eq_some_iff, ih]

private theorem exists_map_some {f : β → Option γ} {xs : List β}
    (all : ∀ x ∈ xs, ∃ y, f x = some y) : ∃ ys : List γ, xs.map f = ys.map some := by
  induction xs with
  | nil => exact ⟨[], rfl⟩
  | cons x xs ih =>
    obtain ⟨y, hy⟩ := all x List.mem_cons_self
    obtain ⟨ys, hys⟩ := ih (List.forall_mem_of_forall_mem_cons all)
    exact ⟨y :: ys, by rw [List.map_cons, hy, hys, List.map_cons]⟩

private theorem map_congr_some {f : β → Option γ} {g : β → δ} {h : γ → δ} {xs : List β}
    {ys : List γ} (read : xs.map f = ys.map some)
    (same : ∀ x ∈ xs, ∀ y, f x = some y → h y = g x) : ys.map h = xs.map g := by
  induction xs generalizing ys with
  | nil => cases ys <;> simp_all
  | cons x xs ih =>
    cases ys with
    | nil => cases read
    | cons y ys =>
      obtain ⟨first, rest⟩ := List.cons.inj read
      rw [List.map_cons, List.map_cons, same x List.mem_cons_self y first,
        ih rest (List.forall_mem_of_forall_mem_cons same)]

/-- A row is read if all its items are and there are as many as there should be. -/
theorem ofJson?_row {n : Nat} {items : List Json} {xs : Vector α n} :
    ofJson? (.arr items) = some xs ↔ items.map ofJson? = xs.toList.map some := by
  rw [← mapM_eq_some]
  change (items.mapM ofJson?).bind _ = _ ↔ _
  rw [Option.bind_eq_some_iff]
  constructor
  · rintro ⟨ys, read, sized⟩
    obtain ⟨size, same⟩ := Option.dite_none_right_eq_some.1 sized
    rw [read, ← Option.some.inj same]
    rfl
  · intro read
    refine ⟨_, read, ?_⟩
    rw [dif_pos (by simp)]
    rfl

theorem stored_row {s : Shape} (h : Stored α s) (n : Nat) : Stored (Vector α n) (.row n s) := by
  constructor
  case reads =>
    constructor
    · intro v plain
      cases v with
      | arr items =>
        have item := plain items rfl
        simp only [ofJson?_row]
        constructor
        · rintro ⟨xs, hx⟩
          have size : items.length = n := by simpa using congrArg List.length hx
          refine ⟨items, rfl, size, fun v hv => (h.reads.accepted v (item v hv)).1 ?_⟩
          have read : ofJson? v ∈ xs.toList.map some := hx ▸ List.mem_map_of_mem hv
          obtain ⟨x, -, hx⟩ := List.mem_map.1 read
          exact ⟨x, hx.symm⟩
        · rintro ⟨_, same, size, fits⟩
          obtain rfl := Json.arr.inj same
          obtain ⟨ys, hy⟩ := exists_map_some fun v hv =>
            (h.reads.accepted v (item v hv)).2 (fits v hv)
          have count : ys.length = n := by simpa [size] using (congrArg List.length hy).symm
          exact ⟨⟨ys.toArray, by simpa using count⟩, hy⟩
      | _ => simp [ofJson?, Shape.row]
    · intro v xs plain hx
      cases v with
      | arr items =>
        rw [ofJson?_row] at hx
        exact congrArg Json.arr (map_congr_some hx fun v hv x hx =>
          h.reads.tidied v x (plain items rfl v hv) hx)
      | _ => cases hx
  case kept =>
    intro xs
    constructor
    case back =>
      change ofJson? (Json.arr _) = _
      rw [ofJson?_row, List.map_map]
      exact List.map_congr_left fun x _ => (h.kept x).back
    case plain =>
      intro items written v hv
      obtain rfl := Json.arr.inj written
      obtain ⟨x, -, rfl⟩ := List.mem_map.1 hv
      exact (h.kept x).plain
    case legible =>
      refine legibleItems_iff.2 fun v hv => ?_
      obtain ⟨x, -, rfl⟩ := List.mem_map.1 hv
      exact (h.kept x).legible

end Rows

section Records
variable {fields : List (String × Shape)} {given : List (String × Json)}

theorem plain_record (distinct : (given.map Prod.fst).Nodup)
    (contents : ∀ f ∈ fields, ∃ w, (f.1, w) ∈ given ∧ f.2.plain w) :
    (Shape.record fields).plain (.obj given) := by
  refine ⟨fun _ => Json.noConfusion, ?_⟩
  intro given' same
  obtain rfl := Json.obj.inj same
  refine ⟨distinct, fun f hf w hw => ?_⟩
  obtain ⟨w', hw', plain⟩ := contents f hf
  have one : some w = some w' := by
    rw [← (unique?_eq_some distinct).2 hw, (unique?_eq_some distinct).2 hw']
  rwa [Option.some.inj one]

variable {α β γ δ : Type} [JsonForm α] [JsonForm β] [JsonForm γ] {A B C : Shape}
  {x : α} {y : β} {z : γ} {a b c : String}

private theorem Kept.part (h : Kept A ofJson? x (toJson x)) (distinct : (given.map Prod.fst).Nodup)
    (there : (a, toJson x) ∈ given) : part? α given a = some x := by
  rw [part?, (unique?_eq_some distinct).2 there]
  exact h.back

variable (hx : Kept A ofJson? x (toJson x)) (hy : Kept B ofJson? y (toJson y))
  (hz : Kept C ofJson? z (toJson z))
include hx

theorem kept_read1 (f : α → δ) :
    Kept (.record [(a, A)]) (Instruction.read1 contents? f a) (f x) (.obj [(a, toJson x)]) where
  back := read1_eq_some.2 ⟨x, hx.part (by simp) (by simp), rfl⟩
  plain := plain_record (by simp) (by simpa using hx.plain)
  legible := ⟨hx.legible, trivial⟩

include hy

theorem kept_read2 (f : α → β → δ) (distinct : [a, b].Nodup) :
    Kept (.record [(a, A), (b, B)]) (Instruction.read2 contents? f a b) (f x y)
      (.obj [(a, toJson x), (b, toJson y)]) where
  back := read2_eq_some.2 ⟨x, y, hx.part distinct (by simp), hy.part distinct (by simp), rfl⟩
  plain := by
    refine plain_record distinct ?_
    simp only [List.forall_mem_cons]
    exact ⟨⟨_, by simp, hx.plain⟩, ⟨_, by simp, hy.plain⟩, by simp⟩
  legible := ⟨hx.legible, hy.legible, trivial⟩

include hz

theorem kept_read3 (f : α → β → γ → δ) (distinct : [a, b, c].Nodup) :
    Kept (.record [(a, A), (b, B), (c, C)]) (Instruction.read3 contents? f a b c) (f x y z)
      (.obj [(a, toJson x), (b, toJson y), (c, toJson z)]) where
  back := read3_eq_some.2 ⟨x, y, z, hx.part distinct (by simp), hy.part distinct (by simp),
    hz.part distinct (by simp), rfl⟩
  plain := by
    refine plain_record distinct ?_
    simp only [List.forall_mem_cons]
    exact ⟨⟨_, by simp, hx.plain⟩, ⟨_, by simp, hy.plain⟩, ⟨_, by simp, hz.plain⟩, by simp⟩
  legible := ⟨hx.legible, hy.legible, hz.legible, trivial⟩

end Records

section Choices
variable {α : Type} {cases : List (String × Shape)} (distinct : (cases.map Prod.fst).Nodup)
include distinct

theorem kept_choice {read : Json → Option α} {pick : String → Json → Option α}
    (single : ∀ key body, read (.obj [(key, body)]) = pick key body) {key : String} {s : Shape}
    (hc : (key, s) ∈ cases) {x : α} {body : Json} (h : Kept s (pick key) x body) :
    Kept (.choice cases) read x (.obj [(key, body)]) where
  back := (single _ _).trans h.back
  plain := by
    intro c hc' body' same
    obtain ⟨key, rfl⟩ : key = c.1 ∧ body = body' := by simpa using same
    obtain rfl := List.inj_on_of_nodup_map distinct hc hc' key
    exact h.plain
  legible := ⟨h.legible, trivial⟩

end Choices

/-- A type whose values are records of three fields. Whether it is also read from arrays does not
matter. -/
theorem stored_record {α β γ δ : Type} [JsonForm α] [JsonForm β] [JsonForm γ] [JsonForm δ]
    {A B C : Shape} (hA : Stored α A) (hB : Stored β B) (hC : Stored γ C) {f : α → β → γ → δ}
    {a b c : String} (distinct : [a, b, c].Nodup) (whole : ∀ d, ∃ x y z, f x y z = d)
    (written : ∀ x y z, toJson (f x y z) = .obj [(a, toJson x), (b, toJson y), (c, toJson z)])
    (read : ∀ v, (∀ items, v ≠ .arr items) → ofJson? v = Instruction.read3 contents? f a b c v) :
    Stored δ (.record [(a, A), (b, B), (c, C)]) where
  reads := by
    have record : Reads (.record [(a, A), (b, B), (c, C)]) (Instruction.read3 contents? f a b c)
        WrittenAs :=
      reads_read3 hA.reads hB.reads hC.reads written
    exact record.congr fun v plain => read v plain.1
  kept d := by
    obtain ⟨x, y, z, rfl⟩ := whole d
    have kept := kept_read3 (hA.kept x) (hB.kept y) (hC.kept z) f distinct
    rw [written]
    exact ⟨(read _ fun _ => Json.noConfusion).trans kept.back, kept.plain, kept.legible⟩

end LittleComputer
