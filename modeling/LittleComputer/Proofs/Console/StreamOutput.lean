import LittleComputer.Proofs.Console.Conservation
import LittleComputer.Proofs.Console.StreamBuffer

/-! What a stream shows. A machine goes the same way on consoles that mirror each other, and on a
stream that takes every byte the output is what the traps of its way have written. -/
namespace LittleComputer
namespace Machine
variable {σ τ : Type} {E : Console.Error → Console.Error → Prop} {R : σ → τ → Prop}
  {con : Console σ} {con' : Console τ}

/-- The same instruction on two consoles: the machine is the same before and after it, and the
results match. -/
structure Event.Matches (E : Console.Error → Console.Error → Prop) (e e' : Event) : Prop where
  before : e.before = e'.before
  result : SameOutcome (Error.Matches E) e.result e'.result
  after : e.after = e'.after

theorem Course.mirrored (mirrors : con.Mirrors E R con') {s s' : Machine × σ} {evs : List Event}
    (h : Course con s evs s') {t : Machine × τ} (states : Beside R s t) :
    ∃ evs' t', Course con' t evs' t' ∧ Beside R s' t' ∧
      List.Forall₂ (Event.Matches E) evs evs' := by
  induction h generalizing t with
  | nil => exact ⟨[], t, .nil, states, .nil⟩
  | done h _ ih =>
    obtain ⟨⟨m', d'⟩, ht, states'⟩ := (step_parallel mirrors).of_ok states h
    obtain ⟨evs', t', course, left, same⟩ := ih states'
    obtain ⟨m, d⟩ := t
    exact ⟨_, t', .done ht course, left, .cons ⟨states.1, .ok _, states'.1⟩ same⟩
  | failed h _ ih =>
    obtain ⟨e', ⟨m', d'⟩, ht, errors, states'⟩ := (step_parallel mirrors).of_error states h
    obtain ⟨evs', t', course, left, same⟩ := ih states'
    obtain ⟨m, d⟩ := t
    exact ⟨_, t', .failed ht course, left, .cons ⟨states.1, .error errors, states'.1⟩ same⟩

/-- What a trap writes does not depend on the words of an error. -/
theorem Event.Matches.written_eq {e e' : Event} (h : e.Matches E e') : e.written = e'.written := by
  obtain ⟨before, result, after⟩ := e
  obtain ⟨_, result', _⟩ := e'
  obtain ⟨rfl, results, rfl⟩ := h
  cases results with
  | ok => rfl
  | error errors =>
    cases errors with
    | notRunning | fault | console => rfl

private theorem flatMap_written {evs evs' : List Event}
    (h : List.Forall₂ (Event.Matches E) evs evs') :
    evs.flatMap Event.written = evs'.flatMap Event.written := by
  induction h with
  | nil => rfl
  | cons same _ ih => rw [List.flatMap_cons, List.flatMap_cons, same.written_eq, ih]

end Machine

namespace Console.Stream

/-- A stream over input that is all there, and an output that takes everything. -/
def holding (input : List Byte) : Stream := { reads := input.map .byte }

theorem yields_holding (input : List Byte) : Yields (holding input).reads input := by
  rw [holding]
  induction input with
  | nil => exact .silent
  | cons b input ih => exact .byte b ih

theorem output_of_course {m : Machine} {input : List Byte} {evs : List Machine.Event}
    {s' : Machine × Stream} (h : Machine.Course console (m, holding input) evs s') :
    s'.2.output.toList = evs.flatMap Machine.Event.written := by
  have mimics : Mimics (holding input) { keys := input } :=
    ⟨yields_holding input, List.forall_mem_nil _, List.forall_mem_nil _, rfl⟩
  obtain ⟨evs', t', course, left, same⟩ :=
    h.mirrored mirrors_buffer (t := (m, { keys := input })) ⟨rfl, mimics⟩
  have written := (Buffer.conserved_of_course course).output
  rw [left.2.output, written, Machine.flatMap_written same]
  rfl

end Console.Stream

end LittleComputer
