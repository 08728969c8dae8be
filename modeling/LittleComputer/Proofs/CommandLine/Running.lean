import LittleComputer.Proofs.CommandLine.Loading
import LittleComputer.Proofs.Console.StreamOutput
import LittleComputer.Proofs.Machine.Undisturbed

/-! The run of a session whose keyboard is a pipe. Nothing disturbs it, and all that the session
says of it follows from what happens in it, whether or not the instructions are listed. -/
namespace LittleComputer.CommandLine
open Machine (Call EndedAs Event StopReason Undisturbed completed noted seenEnd)

/-- The machine and the stream that a session begins with. -/
def beginning (images : List Image) (input : List Byte) : Machine × Console.Stream :=
  (images.foldl Machine.loadImage .initial, Console.Stream.holding input)

theorem cycles_beginning (images : List Image) (input : List Byte) :
    (beginning images input).1.cycles = 0 := (poweredOn images).cycles

/-- The first word that is fetched is that of an image at the start. -/
theorem PoweredOn.read_start {image : Image} {m : Machine} (powered : PoweredOn [image] m)
    (origin : image.origin = startAddress) {w : Word} (first : image.words[0]? = some w)
    {σ : Type} (con : Console σ) (c : σ) :
    Memory.read con m.regs.pc (m.mem, c) = .ok w (m.mem, c) := by
  obtain ⟨within, -⟩ := List.getElem?_eq_some_iff.1 first
  have covers : startAddress.toNat ∈ image.range := by
    rw [← origin]
    exact ⟨Nat.le_refl _, Nat.lt_add_of_pos_right within⟩
  have there := powered.covered [] image [] startAddress rfl covers (List.forall_mem_nil _)
  rw [origin, Nat.sub_self, first] at there
  rw [powered.pc, Memory.read_of_ne (by decide)]
  exact congrArg (EStateM.Result.ok · (m.mem, c)) (Option.some.inj there).symm

/-- What happens in the run of a session, what it leaves and how it ends. -/
abbrev Runs (o : Options) (images : List Image) (input : List Byte) (evs : List Event)
    (s : Machine × Console.Stream) (result : Except Machine.Error StopReason) : Prop :=
  Undisturbed Console.Stream.console o.maxCycles (beginning images input) evs s result

namespace Runs
variable {o : Options} {images : List Image} {input : List Byte} {evs : List Event}
  {s : Machine × Console.Stream} {result : Except Machine.Error StopReason}
  (run : Runs o images input evs s result)
include run

/-- It is the run that nobody watches. -/
theorem trace :
    (Call.runUntil Console.Stream.console.beside o.maxCycles
        ⟨Console.Stream.holding input, false⟩).Trace
      (beginning images input).1 evs s.1 true := by
  rw [Call.Trace, cycles_beginning, Machine.limitFrom_zero]
  exact Undisturbed.trace (fun _ => rfl) (fun _ _ => rfl) run 0 ()

theorem endedAs : EndedAs o.maxCycles s.1 result := by
  have running : (beginning images input).1.state = .running := (poweredOn images).state
  refine Undisturbed.endedAs run ?_
  rw [running]
  exact nofun

theorem cycles_le (max : UInt64) (limited : o.maxCycles = some max) : s.1.cycles ≤ max := by
  refine Undisturbed.le run limited ?_
  rw [cycles_beginning]
  exact UInt64.zero_le

theorem cycles_eq : s.1.cycles.toNat = completed evs := by
  have counted := Undisturbed.cycles_eq run
  rw [cycles_beginning] at counted
  exact counted.trans (Nat.zero_add _)

end Runs

/-- The line that shows an instruction before it is executed. -/
def listed (e : Event) : Listed := ⟨e.before.regs.pc, e.before.mem.peek e.before.regs.pc⟩

theorem noted_lister (o : Options) (lines : Array Listed) (evs : List Event) :
    (noted (lister o) lines evs).toList =
      lines.toList ++ if o.trace then evs.map listed else [] := by
  induction evs generalizing lines with
  | nil => simp [noted]
  | cons e evs ih =>
    refine (ih _).trans ?_
    simp only [lister]
    split <;> simp [listed]

/-- The end of a run as the session takes note of it. -/
def finish (o : Options) (evs : List Event) (s : Machine × Console.Stream)
    (result : Except Machine.Error StopReason) : Finish :=
  ⟨s.1, if o.trace then evs.map listed else [], s.2.output.toList, .piped s.2.unread, result⟩

private theorem ofEnding_seenEnd (o : Options) (evs : List Event) (s : Machine × Console.Stream)
    (result : Except Machine.Error StopReason) :
    Finish.ofEnding (·.output) (fun c => .piped c.unread)
        (seenEnd 0 (noted (lister o) #[] evs) s result) = finish o evs s result := by
  have reasons :
      (seenEnd 0 (noted (lister o) #[] evs) s result).result.map (·.reason) = result := by
    cases result <;> rfl
  rw [Finish.ofEnding, reasons, finish, seenEnd]
  simp only [noted_lister, List.nil_append]

section
variable (o : Options) (images : List Image) (input : List Byte)

/-- The run of a session that nobody watches. -/
theorem runUntil?_eq_some {ending : Machine.Ending Console.Stream Unit} :
    Machine.runUntil? Console.Stream.console.beside o.maxCycles
        ((beginning images input).1, ⟨Console.Stream.holding input, false⟩) = some ending ↔
      ∃ evs s' result, Runs o images input evs s' result ∧
        ending = seenEnd 0 () s' result :=
  Machine.runWatched?_iff_undisturbed (fun _ => rfl) (fun _ _ => rfl)
    (cycles_beginning images input)

theorem execute?_eq_some {f : Finish} :
    execute? o (beginning images input).1 (.piped input) = some f ↔
      ∃ evs s' result, Runs o images input evs s' result ∧
        f = finish o evs s' result := by
  have runs (ending : Machine.Ending Console.Stream (Array Listed)) :
      Machine.runWatched? Console.Stream.console.beside o.maxCycles (lister o) #[]
          ((beginning images input).1, ⟨Console.Stream.holding input, false⟩) = some ending ↔
        ∃ evs s' result, Runs o images input evs s' result ∧
          ending = seenEnd 0 (noted (lister o) #[] evs) s' result :=
    Machine.runWatched?_iff_undisturbed (fun _ => rfl) (fun _ _ => rfl)
      (cycles_beginning images input)
  rw [execute?, Option.map_eq_some_iff]
  constructor
  · rintro ⟨ending, ran, rfl⟩
    obtain ⟨evs, s', result, run, rfl⟩ := (runs ending).1 ran
    exact ⟨evs, s', result, run, ofEnding_seenEnd o evs s' result⟩
  · rintro ⟨evs, s', result, run, rfl⟩
    exact ⟨_, (runs _).2 ⟨evs, s', result, run, rfl⟩, ofEnding_seenEnd o evs s' result⟩

end

/-- A session says what there is to say of its run, and comes to an end if the run does. -/
theorem session?_eq_some {φ : Type} [FileSystem φ] {args : List String} {o : Options} {files : φ}
    {images : List Image} {input : List Byte} {t : Transcript φ}
    (parsed : Options.ofArguments args = .ok o) (loads : Loads files o.images images) :
    session? args files (.piped input) = some t ↔
      ∃ evs s' result, Runs o images input evs s' result ∧
        t = finished o files (finish o evs s' result) := by
  have runs := sessionOn_of_loaded parsed (loadAll_of_loads loads .initial) execute? (.piped input)
  rw [session?, runs, Option.map_eq_some_iff]
  constructor
  · rintro ⟨f, ran, rfl⟩
    obtain ⟨evs, s', result, run, rfl⟩ := (execute?_eq_some o images input).1 ran
    exact ⟨evs, s', result, run, rfl⟩
  · rintro ⟨evs, s', result, run, rfl⟩
    exact ⟨_, (execute?_eq_some o images input).2 ⟨evs, s', result, run, rfl⟩, rfl⟩

end LittleComputer.CommandLine
