import Mathlib.Data.List.Perm.Basic
import Mathlib.Data.List.Pairwise
import LittleComputer.Proofs.Image.Format
import LittleComputer.Proofs.Memory.Placing

/-! Images in memory. One that has been read fits where it is loaded, and of several that lie over
each other the last is seen. -/
namespace LittleComputer
open Image

/-- The addresses of an image. -/
def Image.range (i : Image) : Set Nat := span i.origin i.words.length

/-- Two images have no address in common. -/
def Image.Apart (i j : Image) : Prop := ∀ a ∈ i.range, a ∉ j.range

/-- What has been read fits into memory and leaves the keyboard alone. -/
theorem Image.placed_of_ofBytes {bytes : List Byte} {i : Image} (h : ofBytes bytes = .ok i) :
    i.origin.toNat + i.words.length ≤ 65536 ∧ 0xFE00 ∉ i.range ∧ 0xFE02 ∉ i.range :=
  (((verdict bytes).image i.origin i.words).1 ⟨i, h, rfl, rfl⟩).2

namespace Machine

section One
variable {i j : Image} {a : Word}

theorem peek_loadImage (m : Machine) (i : Image) (a : Word) :
    (m.loadImage i).mem.peek a = if i.origin.toNat ≤ a.toNat then
      i.words[a.toNat - i.origin.toNat]?.getD (m.mem.peek a) else m.mem.peek a :=
  Memory.peek_place _ _ _ _

/-- Under an image its words are found. -/
theorem peek_loadImage_of_mem (h : a.toNat ∈ i.range) (m : Machine) :
    i.words[a.toNat - i.origin.toNat]? = some ((m.loadImage i).mem.peek a) := by
  have below : a.toNat - i.origin.toNat < i.words.length := by
    have := h.2
    have := h.1
    omega
  rw [peek_loadImage, if_pos h.1, List.getElem?_eq_getElem below, Option.getD_some]

theorem peek_loadImage_of_notMem (h : a.toNat ∉ i.range) (m : Machine) :
    (m.loadImage i).mem.peek a = m.mem.peek a := by
  rw [peek_loadImage]
  split
  next above =>
    have beyond : i.words.length ≤ a.toNat - i.origin.toNat := by
      have past : i.origin.toNat + i.words.length ≤ a.toNat :=
        Nat.not_lt.1 fun below => h ⟨above, below⟩
      omega
    rw [List.getElem?_eq_none beyond, Option.getD_none]
  next => rfl

/-- Images that lie apart may be loaded in either order. -/
theorem loadImage_comm (apart : i.Apart j) (m : Machine) :
    (m.loadImage i).loadImage j = (m.loadImage j).loadImage i := by
  have mem : ((m.loadImage i).loadImage j).mem = ((m.loadImage j).loadImage i).mem := by
    apply Memory.ext_peek
    intro a
    by_cases hi : a.toNat ∈ i.range
    · have hj := apart _ hi
      rw [peek_loadImage_of_notMem hj]
      apply Option.some.inj
      rw [← peek_loadImage_of_mem hi, ← peek_loadImage_of_mem hi]
    · rw [peek_loadImage_of_notMem hi]
      by_cases hj : a.toNat ∈ j.range
      · apply Option.some.inj
        rw [← peek_loadImage_of_mem hj, ← peek_loadImage_of_mem hj]
      · rw [peek_loadImage_of_notMem hj, peek_loadImage_of_notMem hj, peek_loadImage_of_notMem hi]
  exact congrArg (fun mem => { m with mem }) mem

end One

section Many
variable {images : List Image} {a : Word}

/-- Images are only copied into memory. -/
theorem loadImages_eq (images : List Image) (m : Machine) :
    images.foldl loadImage m = { m with mem := (images.foldl loadImage m).mem } := by
  induction images generalizing m with
  | nil => rfl
  | cons i images ih =>
    rw [List.foldl_cons, ih]
    rfl

theorem peek_loadImages_of_notMem (h : ∀ i ∈ images, a.toNat ∉ i.range) (m : Machine) :
    (images.foldl loadImage m).mem.peek a = m.mem.peek a := by
  induction images generalizing m with
  | nil => rfl
  | cons i images ih =>
    rw [List.foldl_cons, ih (List.forall_mem_of_forall_mem_cons h),
      peek_loadImage_of_notMem (h i List.mem_cons_self)]

/-- Of the images over an address the last one is seen. -/
theorem peek_loadImages_of_last {i : Image} {after : List Image} (h : a.toNat ∈ i.range)
    (last : ∀ j ∈ after, a.toNat ∉ j.range) (before : List Image) (m : Machine) :
    i.words[a.toNat - i.origin.toNat]? =
      some (((before ++ i :: after).foldl loadImage m).mem.peek a) := by
  rw [List.foldl_append, List.foldl_cons, peek_loadImages_of_notMem last]
  exact peek_loadImage_of_mem h _

/-- Images that fit are all loaded. -/
theorem foldlM_load? (fits : ∀ i ∈ images, i.origin.toNat + i.words.length ≤ 65536)
    (m : Machine) : images.foldlM (fun mem i => mem.load? i.origin i.words) m.mem =
      some (images.foldl loadImage m).mem := by
  induction images generalizing m with
  | nil => rfl
  | cons i images ih =>
    rw [List.foldlM_cons, Memory.load?_of_fits (fits i List.mem_cons_self)]
    exact ih (List.forall_mem_of_forall_mem_cons fits) (m.loadImage i)

theorem loadImages_perm {images' : List Image} (same : images'.Perm images)
    (apart : images.Pairwise Apart) (m : Machine) :
    images'.foldl loadImage m = images.foldl loadImage m := by
  have commute : ∀ i ∈ images, ∀ j ∈ images, ∀ m : Machine,
      (m.loadImage i).loadImage j = (m.loadImage j).loadImage i := by
    intro i hi j hj
    apply List.Pairwise.forall_of_forall_of_flip ?_ ?_ ?_ hi hj
    · exact fun _ _ _ => rfl
    · exact apart.imp fun h m => loadImage_comm h m
    · exact apart.imp fun h m => (loadImage_comm h m).symm
  exact (same.symm.foldl_eq' commute m).symm

end Many

/-- What the machine `m` has become once the images have been loaded, in this order. -/
structure Overlaid (m : Machine) (images : List Image) (m' : Machine) : Prop where
  /-- The last image that covers an address decides its word. -/
  covered : ∀ before i after (a : Word), images = before ++ i :: after → a.toNat ∈ i.range →
    (∀ j ∈ after, a.toNat ∉ j.range) → i.words[a.toNat - i.origin.toNat]? = some (m'.mem.peek a)
  uncovered : ∀ a : Word, (∀ i ∈ images, a.toNat ∉ i.range) → m'.mem.peek a = m.mem.peek a
  keyboard : m'.mem.peek 0xFE00 = m.mem.peek 0xFE00 ∧ m'.mem.peek 0xFE02 = m.mem.peek 0xFE02
  others : m'.regs = m.regs ∧ m'.state = m.state ∧ m'.cycles = m.cycles

/-- Images that have been read are loaded one over the other, and none is refused. The order
counts only where they meet. Any words may be loaded that end within the memory, and others are
refused before one of them is written. -/
theorem loadImages_overlaid {images : List Image}
    (read : ∀ i ∈ images, ∃ bytes, ofBytes bytes = .ok i) (m : Machine) :
    images.foldlM (fun mem i => mem.load? i.origin i.words) m.mem =
        some (images.foldl loadImage m).mem ∧
      Overlaid m images (images.foldl loadImage m) ∧
      (∀ images' : List Image, images'.Perm images → images.Pairwise Apart →
        images'.foldl loadImage m = images.foldl loadImage m) ∧
      ∀ (mem : Memory) origin words,
        (mem.load? origin words = none ↔ 65536 < origin.toNat + words.length) ∧
        ∀ mem', Memory.load origin words mem = .error () mem' ↔
          65536 < origin.toNat + words.length ∧ mem' = mem := by
  have placed (i : Image) (hi : i ∈ images) : i.origin.toNat + i.words.length ≤ 65536 ∧
      0xFE00 ∉ i.range ∧ 0xFE02 ∉ i.range := by
    obtain ⟨bytes, h⟩ := read i hi
    exact placed_of_ofBytes h
  refine ⟨foldlM_load? (fun i hi => (placed i hi).1) m, ?_, ?_, ?_⟩
  · constructor
    case covered =>
      rintro before i after a rfl hi last
      exact peek_loadImages_of_last hi last before m
    case uncovered => exact fun a h => peek_loadImages_of_notMem h m
    case keyboard =>
      have status : ∀ i ∈ images, (0xFE00 : Word).toNat ∉ i.range := fun i hi => (placed i hi).2.1
      have data : ∀ i ∈ images, (0xFE02 : Word).toNat ∉ i.range := fun i hi => (placed i hi).2.2
      exact ⟨peek_loadImages_of_notMem status m, peek_loadImages_of_notMem data m⟩
    case others =>
      rw [loadImages_eq]
      exact ⟨rfl, rfl, rfl⟩
  · exact fun images' same apart => loadImages_perm same apart m
  · exact fun mem origin words => ⟨Memory.load?_eq_none, fun _ => Memory.load_eq_error⟩

/-- Of two images that overlap the one that has been loaded later is seen. -/
theorem loadImages_overlaid_of_two : ∃ earlier later : Image,
    (∀ i ∈ [earlier, later], ∃ bytes, ofBytes bytes = .ok i) ∧
      Overlaid initial [earlier, later] ((initial.loadImage earlier).loadImage later) ∧
      ((initial.loadImage earlier).loadImage later).mem.peek 0x3000 = 0x1234 ∧
      ((initial.loadImage earlier).loadImage later).mem.peek 0x3001 = 0xABCD := by
  let earlier : Image := ⟨0x3000, [0x1234, 0x5678], by decide, rfl, rfl⟩
  let later : Image := ⟨0x3001, [0xABCD], by decide, rfl, rfl⟩
  have read : ∀ i ∈ [earlier, later], ∃ bytes, ofBytes bytes = .ok i :=
    fun i _ => ⟨i.toBytes, ofBytes_eq_ok.2 rfl⟩
  have overlaid := (loadImages_overlaid read initial).2.1
  have hn : (0x3000 : Word).toNat ∈ earlier.range ∧ (0x3000 : Word).toNat ∉ later.range := by
    simp [earlier, later, range, span]
  have hl : (0x3001 : Word).toNat ∈ later.range := by simp [later, range, span]
  have first := overlaid.covered [] earlier [later] 0x3000 rfl hn.1 (by simpa using hn.2)
  have second := overlaid.covered [earlier] later [] 0x3001 rfl hl (by simp)
  exact ⟨earlier, later, read, overlaid, (Option.some.inj first).symm,
    (Option.some.inj second).symm⟩

end Machine

end LittleComputer
