import LittleComputer.Instruction.Form
import LittleComputer.Machine.Snapshot
import LittleComputer.Proofs.Json.Parsing
import LittleComputer.Proofs.Json.Stored

/-! The shapes of what the computer stores: registers, snapshots and instructions. Their texts are
read back, and other JSON is accepted exactly if it has the shape of the type. -/
namespace LittleComputer
open JsonForm Json

def byteShape : Shape := .number UInt8.size

def wordShape : Shape := .number UInt16.size

def countShape : Shape := .number UInt64.size

theorem stored_word : Stored Word wordShape :=
  stored_number UInt16.ofFin UInt16.toFin (fun _ => rfl) (fun _ => rfl) (fun _ => rfl) fun _ => rfl

theorem stored_count : Stored UInt64 countShape :=
  stored_number UInt64.ofFin UInt64.toFin (fun _ => rfl) (fun _ => rfl) (fun _ => rfl) fun _ => rfl

theorem stored_regNumber : Stored RegNumber byteShape :=
  stored_number (fun k => ⟨UInt8.ofFin k⟩) (fun r => r.val.toFin) (fun _ => rfl) (fun _ => rfl)
    (fun _ => rfl) fun _ => Option.map_map ..

theorem stored_flag : Stored Flag (.name ["Pos", "Zro", "Neg"]) :=
  stored_name fun x => by cases x <;> rfl

theorem stored_state : Stored Machine.State (.name ["Running", "Halted", "Faulted"]) :=
  stored_name fun x => by cases x <;> rfl

theorem stored_vector : Stored TrapVector (.name ["Getc", "Out", "Puts", "In", "Putsp", "Halt"]) :=
  stored_name fun x => by cases x <;> rfl

def Registers.shape : Shape :=
  .record [("gpr", .row 8 wordShape), ("pc", wordShape), ("cond", .name ["Pos", "Zro", "Neg"])]

theorem stored_registers : Stored Registers Registers.shape := by
  refine stored_record (stored_row stored_word 8) stored_word stored_flag (f := Registers.mk)
    (by decide) (fun rs => ⟨rs.gpr, rs.pc, rs.cond, rfl⟩) (fun _ _ _ => rfl) fun v h => ?_
  cases v with
  | arr items => exact absurd rfl (h items)
  | _ => rfl

def Snapshot.shape : Shape :=
  .record [("registers", Registers.shape), ("state", .name ["Running", "Halted", "Faulted"]),
    ("cycles", countShape)]

theorem stored_snapshot : Stored Snapshot Snapshot.shape := by
  refine stored_record stored_registers stored_state stored_count (f := Snapshot.mk)
    (by decide) (fun s => ⟨s.registers, s.state, s.cycles, rfl⟩) (fun _ _ _ => rfl) fun v h => ?_
  cases v with
  | arr items => exact absurd rfl (h items)
  | _ => rfl

def Operand.shape : Shape := .choice [("Reg", byteShape), ("Imm", wordShape)]

/-- The operand that an object with one key holds. -/
def Operand.ofCase? (key : String) (v : Json) : Option (Operand RegNumber) :=
  match key with
  | "Reg" => (ofJson? v).map .reg
  | "Imm" => (ofJson? v).map .imm
  | _ => none

theorem Operand.ofJson?_single (key : String) (v : Json) :
    ofJson? (.obj [(key, v)]) = Operand.ofCase? key v := by
  unfold Operand.ofCase?
  split
  · rfl
  · rfl
  · simp only [ofJson?]
    split <;> simp_all

theorem stored_operand : Stored (Operand RegNumber) Operand.shape where
  reads := by
    refine reads_choice (by decide) Operand.ofCase? ?_ Operand.ofJson?_single ?_ ?_
    · intro v x h
      simp only [ofJson?] at h
      split at h
      · exact ⟨_, _, rfl⟩
      · exact ⟨_, _, rfl⟩
      · cases h
    · intro key body x h
      unfold Operand.ofCase? at h
      split at h <;> simp_all
    · simp only [List.forall_mem_cons]
      exact ⟨stored_regNumber.reads.map fun _ => rfl, stored_word.reads.map fun _ => rfl, by simp⟩
  kept o := by
    cases o with
    | reg r =>
      have inside := (stored_regNumber.kept r).map Operand.reg
      exact kept_choice (by decide) Operand.ofJson?_single (List.mem_cons_self) inside
    | imm v =>
      have inside := (stored_word.kept v).map (Operand.imm (ρ := RegNumber))
      exact kept_choice (by decide) Operand.ofJson?_single (by simp) inside

def Instruction.cases : List (String × Shape) :=
  [("Add", .record [("dr", byteShape), ("sr1", byteShape), ("op2", Operand.shape)]),
    ("And", .record [("dr", byteShape), ("sr1", byteShape), ("op2", Operand.shape)]),
    ("Not", .record [("dr", byteShape), ("sr", byteShape)]),
    ("Ld", .record [("dr", byteShape), ("offset", wordShape)]),
    ("Ldi", .record [("dr", byteShape), ("offset", wordShape)]),
    ("Ldr", .record [("dr", byteShape), ("base", byteShape), ("offset", wordShape)]),
    ("Lea", .record [("dr", byteShape), ("offset", wordShape)]),
    ("St", .record [("sr", byteShape), ("offset", wordShape)]),
    ("Sti", .record [("sr", byteShape), ("offset", wordShape)]),
    ("Str", .record [("sr", byteShape), ("base", byteShape), ("offset", wordShape)]),
    ("Br", .record [("nzp", wordShape), ("offset", wordShape)]),
    ("Jmp", .record [("base", byteShape)]),
    ("Jsr", .record [("offset", wordShape)]),
    ("Jsrr", .record [("base", byteShape)]),
    ("Trap", .record [("vector", .name ["Getc", "Out", "Puts", "In", "Putsp", "Halt"])])]

def Instruction.shape : Shape := .choice Instruction.cases

theorem Instruction.cases_records : ∀ c ∈ cases, ∃ fields, c.2 = .record fields := by
  simp [cases]

/-- Only the fields of a mnemonic are read. -/
theorem Instruction.mem_cases {parts : List String → Json → Option (List Json)} {key : String}
    {body : Json} {i : Instruction RegNumber} (h : ofFields? parts key body = some i) :
    key ∈ cases.map Prod.fst := by
  unfold ofFields? at h
  split at h <;> first | decide | cases h

theorem stored_instruction : Stored (Instruction RegNumber) Instruction.shape where
  reads := by
    refine reads_choice (by decide) (Instruction.ofFields? contents?) ?_ (fun _ _ => rfl)
      (fun _ _ _ => Instruction.mem_cases) ?_
    · intro v x h
      simp only [ofJson?] at h
      split at h
      · exact ⟨_, _, rfl⟩
      · cases h
    · have r := stored_regNumber.reads
      have w := stored_word.reads
      simp only [Instruction.cases, List.forall_mem_cons]
      exact ⟨reads_read3 r r stored_operand.reads fun _ _ _ => rfl,
        reads_read3 r r stored_operand.reads fun _ _ _ => rfl,
        reads_read2 r r fun _ _ => rfl,
        reads_read2 r w fun _ _ => rfl,
        reads_read2 r w fun _ _ => rfl,
        reads_read3 r r w fun _ _ _ => rfl,
        reads_read2 r w fun _ _ => rfl,
        reads_read2 r w fun _ _ => rfl,
        reads_read2 r w fun _ _ => rfl,
        reads_read3 r r w fun _ _ _ => rfl,
        reads_read2 w w fun _ _ => rfl,
        reads_read1 r fun _ => rfl,
        reads_read1 w fun _ => rfl,
        reads_read1 r fun _ => rfl,
        reads_read1 stored_vector.reads fun _ => rfl,
        by simp⟩
  kept i := by
    have r := stored_regNumber.kept
    have w := stored_word.kept
    have o := stored_operand.kept
    have kept {key : String} {s : Shape} {body : Json} (there : (key, s) ∈ Instruction.cases)
        (h : Kept s (Instruction.ofFields? contents? key) i body) :
        Kept Instruction.shape ofJson? i (.obj [(key, body)]) :=
      kept_choice (by decide) (fun _ _ => rfl) there h
    cases i with
    | add dr sr1 op2 | and dr sr1 op2 =>
      exact kept (by simp [Instruction.cases, Instruction.mnemonic])
        (kept_read3 (r dr) (r sr1) (o op2) _ (by decide))
    | not dr sr =>
      exact kept (by simp [Instruction.cases, Instruction.mnemonic])
        (kept_read2 (r dr) (r sr) _ (by decide))
    | ld r₁ offset | ldi r₁ offset | lea r₁ offset | st r₁ offset | sti r₁ offset =>
      exact kept (by simp [Instruction.cases, Instruction.mnemonic])
        (kept_read2 (r r₁) (w offset) _ (by decide))
    | ldr r₁ base offset | str r₁ base offset =>
      exact kept (by simp [Instruction.cases, Instruction.mnemonic])
        (kept_read3 (r r₁) (r base) (w offset) _ (by decide))
    | br nzp offset =>
      exact kept (by simp [Instruction.cases, Instruction.mnemonic])
        (kept_read2 (w nzp) (w offset) _ (by decide))
    | jmp base | jsrr base =>
      exact kept (by simp [Instruction.cases, Instruction.mnemonic]) (kept_read1 (r base) _)
    | jsr offset =>
      exact kept (by simp [Instruction.cases, Instruction.mnemonic]) (kept_read1 (w offset) _)
    | trap v =>
      exact kept (by simp [Instruction.cases, Instruction.mnemonic])
        (kept_read1 (stored_vector.kept v) _)

/-- Fields that are not given in an array are found in a text as they are anywhere else. -/
theorem Instruction.ofText?_of_plain {v : Json} (plain : Instruction.shape.plain v) :
    (ofText? v : Option (Instruction RegNumber)) = ofJson? v := by
  by_cases single : ∃ key body, v = .obj [(key, body)]
  · obtain ⟨key, body, rfl⟩ := single
    change ofFields? parts? key body = ofFields? contents? key body
    cases body with
    | arr items =>
      have unread (parts : List String → Json → Option (List Json)) :
          ofFields? (ρ := RegNumber) parts key (.arr items) = none := by
        rw [Option.eq_none_iff_forall_ne_some]
        intro i read
        obtain ⟨c, hc, rfl⟩ := List.mem_map.1 (mem_cases read)
        obtain ⟨fields, record⟩ := cases_records c hc
        have contents := plain c hc (.arr items) rfl
        rw [record] at contents
        exact contents.1 items rfl
      rw [unread, unread]
    | _ => rfl
  · have unread : (ofJson? v : Option (Instruction RegNumber)) = none := by
      simp only [ofJson?]
      split
      · exact absurd ⟨_, _, rfl⟩ single
      · rfl
    rw [unread]
    simp only [ofText?]
    split
    · exact absurd ⟨_, _, rfl⟩ single
    · rfl

/-- The value of a type that a text holds. -/
def readText? (α : Type) [JsonForm α] (text : String) : Option α := (parse? text).bind ofText?

/-- The text that is written for what has been read of a value. -/
def rewrite? {α : Type} [JsonForm α] (read : Json → Option α) (l : Layout) (v : Json) :
    Option String := (read v).map fun x => print l (toJson x)

/-- How the values of a type are written and read. -/
structure Faithful (α : Type) [JsonForm α] (s : Shape) : Prop where
  back : ∀ x : α, readText? α (compact (toJson x)) = some x ∧
    readText? α (pretty (toJson x)) = some x
  /-- What has been accepted, in whatever form, is the same when it has been written and read again,
  and so is its text. -/
  again : ∀ read : Json → Option α, read = ofJson? ∨ read = ofText? →
    ∀ l, l = .compact ∨ l = .pretty → ∀ v text, rewrite? read l v = some text →
      ∃ w, parse? text = some w ∧ read w = read v ∧ rewrite? read l w = some text
  /-- Nothing is written but what is required, in order. -/
  tidy : ∀ v (x : α), ofJson? v = some x →
    toJson x = s.tidy (toJson x) ∧ (s.plain v → toJson x = s.tidy v)
  accepted : ∀ v, s.plain v → ((∃ x : α, ofJson? v = some x) ↔ s.fits v)
  /-- Only of JSON in another form a text can hold more. -/
  alike : ∀ v, s.plain v → (ofText? v : Option α) = ofJson? v

section Texts
variable {α : Type} [JsonForm α] {s : Shape} (h : Stored α s)
  (alike : ∀ v, s.plain v → (ofText? v : Option α) = ofJson? v)
include h alike

theorem Stored.readText? (x : α) {l : Layout} (hl : l.Blank) :
    readText? α (print l (toJson x)) = some x := by
  have kept := h.kept x
  rw [LittleComputer.readText?, parse?_print hl kept.legible]
  exact (alike _ kept.plain).trans kept.back

theorem Stored.faithful : Faithful α s where
  back x := ⟨h.readText? alike x Layout.compact_blank, h.readText? alike x Layout.pretty_blank⟩
  again read hr l hl v text rewritten := by
    have blank : l.Blank := by
      rcases hl with rfl | rfl
      · exact Layout.compact_blank
      · exact Layout.pretty_blank
    obtain ⟨x, hx, rfl⟩ := Option.map_eq_some_iff.1 rewritten
    have kept := h.kept x
    have back : read (toJson x) = some x := by
      rcases hr with rfl | rfl
      · exact kept.back
      · exact (alike _ kept.plain).trans kept.back
    refine ⟨toJson x, parse?_print blank kept.legible, back.trans hx.symm, ?_⟩
    rw [rewrite?, back]
    rfl
  tidy v x hx :=
    ⟨h.reads.tidied _ x (h.kept x).plain (h.kept x).back, fun plain => h.reads.tidied v x plain hx⟩
  accepted := h.reads.accepted
  alike := alike

end Texts

/-- Snapshots, registers and instructions are read back from their texts, and JSON in object form is
accepted for one of them exactly if all that is required is there and within its bounds. -/
theorem stored_forms_faithful :
    Faithful Snapshot Snapshot.shape ∧ Faithful Registers Registers.shape ∧
      Faithful (Instruction RegNumber) Instruction.shape :=
  ⟨stored_snapshot.faithful fun _ _ => rfl, stored_registers.faithful fun _ _ => rfl,
    stored_instruction.faithful fun _ => Instruction.ofText?_of_plain⟩

end LittleComputer
