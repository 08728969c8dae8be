import LittleComputer.Proofs.CommandLine.Directory
import LittleComputer.Proofs.CommandLine.Running
import LittleComputer.Proofs.CommandLine.StateText
import LittleComputer.Proofs.Machine.BoundedRun
import LittleComputer.Proofs.Machine.PumpSchedule

/-! What the exit status of a session tells about the machine. It is the reason for which the run
has ended, unless the state was to be written to a file and could not be. -/
namespace LittleComputer
open Console (Entry)

namespace Machine
variable {κ τ : Type}

/-- Unless a failure was heeded as a request to stop, it shows in the result. -/
theorem Settles.failed_iff {heeds : Bool} {calls : List Entry}
    {r : EStateM.Result Error (Machine × Cancellable κ) Answer} (h : Settles heeds calls r)
    (uncancelled : ∀ n s, r ≠ .ok (.summary ⟨n, .cancelled⟩) s) :
    (∃ e ∈ calls, e.failure ≠ none) ↔ ∃ cause s, r = .error (.console cause) s := by
  cases h with
  | unfailed all other =>
    constructor
    · rintro ⟨e, he, failed⟩
      exact absurd (all e he) failed
    · rintro ⟨cause, s, rfl⟩
      cases other
  | failed before stands =>
    exact iff_of_true ⟨_, List.mem_concat_self, nofun⟩ ⟨_, _, rfl⟩
  | cancelled n before heeded inside interrupted raised => exact absurd rfl (uncancelled n _)

theorem Ending.result_of_reply {ending : Ending κ τ} {summary : Summary}
    {s : Machine × Cancellable κ} (h : ending.reply = .ok (.summary summary) s) :
    ending.result = .ok summary := by
  rw [Ending.reply] at h
  split at h
  next result =>
    cases h
    exact result
  next => cases h

theorem Ending.reply_eq_error {ending : Ending κ τ} {e : Error} :
    (∃ s, ending.reply = .error e s) ↔ ending.result = .error e := by
  rw [Ending.reply]
  cases ending.result with
  | ok summary => simp
  | error e' => simp

/-- If nobody has cancelled a run, one of its calls has failed just if the run has. -/
theorem runUntil?_journaled {con : Console (Cancellable κ)} {budget : Option UInt64} {m : Machine}
    {w : Cancellable κ} {ending : Ending κ Unit} (ran : runUntil? con budget (m, w) = some ending)
    (uncancelled : ∀ n, ending.result ≠ .ok ⟨n, .cancelled⟩) : ∃ calls,
      runUntil? con.journaled budget (m, w.noted []) = some (ending.noted calls) ∧
      ((∃ e ∈ calls, e.failure ≠ none) ↔ ∃ cause, ending.result = .error (.console cause)) := by
  have same := runWatched?_journaled con budget (fun _ () => ((), false)) m w ()
  rw [← runUntil?, ran, ← runUntil?] at same
  generalize journaled : runUntil? con.journaled _ _ = run at same
  cases same with
  | @some _ ending' noted =>
    have result : ending.result = ending'.result := by rw [noted, Ending.noted]
    have replied : (Request.runUntil (τ := Unit) budget).reply? con.journaled (m, w.noted []) =
        some ending'.reply := congrArg (Option.map Ending.reply) journaled
    obtain ⟨new, calls, settles⟩ := Request.reply?_settles _ replied
    rw [stateLeft_reply, Cancellable.calls_noted, List.nil_append] at calls
    refine ⟨ending'.console.calls, congrArg some noted, ?_⟩
    rw [calls, result, settles.failed_iff fun n s h => ?cancelled]
    · exact exists_congr fun cause => Ending.reply_eq_error
    · exact uncancelled n (result.trans (Ending.result_of_reply h))

end Machine

namespace CommandLine
open Machine (Call EndedAs Error Event StopReason)

/-- A code that tells how a machine was left, and whether it is because a call has failed. -/
structure Tells (limit : Option UInt64) (m : Machine) (failed : Prop) (code : UInt8) : Prop where
  halted : code = 0 ↔ m.state = .halted
  faulted : code = 3 ↔ m.state = .faulted
  outOfCycles : code = 5 ↔ m.state = .running ∧ limit = some m.cycles
  ioFailed : code = 4 ↔ m.state = .running ∧ failed

private theorem reached_iff {limit : Option UInt64} {count : UInt64}
    (bounded : ∀ max, limit = some max → count ≤ max) :
    limit.any (· ≤ count) = true ↔ limit = some count := by
  cases limit with
  | none => simp
  | some max =>
    rw [Option.any_some, decide_eq_true_iff, Option.some.injEq]
    exact ⟨fun reached => UInt64.le_antisymm reached (bounded max rfl), UInt64.le_of_eq⟩

theorem tells_of_endedAs {limit : Option UInt64} {m : Machine} {result : Except Error StopReason}
    {failed : Prop} (h : EndedAs limit m result)
    (bounded : ∀ max, limit = some max → m.cycles ≤ max)
    (failing : failed ↔ ∃ cause, result = .error (.console cause)) :
    Tells limit m failed (conclude m result).status.code := by
  have there := reached_iff bounded
  cases h with
  | halted state | faulted _ _ _ state =>
    constructor <;> simp [conclude, ExitStatus.code, failing, state]
  | limited running reached =>
    constructor <;> simp [conclude, ExitStatus.code, failing, running, there.1 reached]
  | failed cause running within =>
    rw [there] at within
    constructor <;> simp [conclude, ExitStatus.code, failing, running, within]

/-- Only of a run that was cancelled there is more to say on the output. -/
theorem quiet_of_endedAs {limit : Option UInt64} {m : Machine} {result : Except Error StopReason}
    (h : EndedAs limit m result) :
    (conclude m result).stdout = "" ∧ (conclude m result).status.code ≠ 130 := by
  cases h <;> exact ⟨rfl, by simp [conclude, ExitStatus.code]⟩

/-- What a session says of a machine that it has run, and leaves in the files: its code tells how
the machine was left, unless the state could not be written. The text of the state is read back as
what is kept of the machine, and it is what the file holds then, wherever a file keeps what is
written. -/
structure Truthful {φ : Type} [FileSystem φ] (o : Options) (files : φ) (m : Machine) (failed : Prop)
    (t : Transcript φ) : Prop where
  bounded : ∀ max, o.maxCycles = some max → m.cycles ≤ max
  uninterrupted : t.status.code ≠ 130
  undumped : o.dumpState = none → Tells o.maxCycles m failed t.status.code ∧ t.files = files
  dumped : ∀ path files', o.dumpState = some path →
    FileSystem.write path (stateText m).toUTF8.toList files = .ok () files' →
      Tells o.maxCycles m failed t.status.code ∧ t.files = files' ∧
        (FileSystem.Keeps φ path →
          FileSystem.read t.files path = .ok (stateText m).toUTF8.toList) ∧
        readText? Snapshot (stateText m) = some ⟨m.regs, m.state, m.cycles⟩
  unwritable : ∀ path why files', o.dumpState = some path →
    FileSystem.write path (stateText m).toUTF8.toList files = .error why files' →
      t.status.code = 4 ∧ t.files = files'

section
variable {φ : Type} [FileSystem φ] {o : Options} {files : φ} {f : Finish}
  (ended : EndedAs o.maxCycles f.machine f.result)
include ended

theorem quiet_of_close :
    (close o files f).1.stdout = "" ∧ (close o files f).1.status.code ≠ 130 := by
  rw [close]
  split
  next => exact quiet_of_endedAs ended
  next =>
    split
    next => exact quiet_of_endedAs ended
    next => exact ⟨rfl, by simp [dumpFailure, ExitStatus.code]⟩

theorem stdout_finished : (finished o files f).stdout = f.output := by
  have silent : (close o files f).1.stdout = "" := (quiet_of_close ended).1
  simp only [finished, silent, toUTF8_empty, List.append_nil]

theorem truthful_of_finish {failed : Prop}
    (bounded : ∀ max, o.maxCycles = some max → f.machine.cycles ≤ max)
    (failing : failed ↔ ∃ cause, f.result = .error (.console cause)) :
    Truthful o files f.machine failed (finished o files f) := by
  have tells := tells_of_endedAs ended bounded failing
  constructor
  case bounded => exact bounded
  case uninterrupted => exact (quiet_of_close ended).2
  case undumped =>
    intro unasked
    simp only [finished, close, unasked]
    exact ⟨tells, trivial⟩
  case dumped =>
    intro path files' asked written
    simp only [finished, close, asked, dumpText_eq, written]
    exact ⟨tells, trivial, fun keeps => keeps _ _ _ written, readText?_stateText _⟩
  case unwritable =>
    intro path why files' asked refused
    simp only [finished, close, asked, dumpText_eq, refused]
    exact ⟨rfl, trivial⟩

end

/-- A call of the run has failed just if the run has ended with the error of one. -/
theorem Runs.journaled {o : Options} {images : List Image} {input : List Byte} {evs : List Event}
    {s : Machine × Console.Stream} {result : Except Error StopReason}
    (run : Runs o images input evs s result) : ∃ calls,
      Machine.runUntil? Console.Stream.console.beside.journaled o.maxCycles
          ((beginning images input).1, Cancellable.noted ⟨Console.Stream.holding input, false⟩ []) =
        some ((Machine.seenEnd 0 () s result).noted calls) ∧
      ((∃ e ∈ calls, e.failure ≠ none) ↔ ∃ cause, result = .error (.console cause)) := by
  have ran := (runUntil?_eq_some o images input).2 ⟨evs, s, result, run, rfl⟩
  have uncancelled (n : UInt64) : (Machine.seenEnd 0 () s result).result ≠ .ok ⟨n, .cancelled⟩ := by
    cases run.endedAs <;> exact nofun
  obtain ⟨calls, noted, failing⟩ := Machine.runUntil?_journaled ran uncancelled
  refine ⟨calls, noted, failing.trans ?_⟩
  cases result <;> simp [Machine.seenEnd, Except.map]

/-- The code of a session tells how the run of the machine has ended. Whatever is piped in, that is
the run of the loaded machine on it that nobody watches, the output is what its traps write, and
the dumped state is the one it leaves. -/
theorem exit_status_truthful {φ : Type} [FileSystem φ] {args : List String} {o : Options}
    {files : φ} {images : List Image} (parsed : Options.ofArguments args = .ok o)
    (loads : Loads files o.images images) (input : List Byte) :
    let m : Machine := images.foldl Machine.loadImage .initial
    let w : Cancellable Console.Stream := ⟨Console.Stream.holding input, false⟩
    let con := Console.Stream.console.beside
    ((session? args files (.piped input)).isSome ↔
        (Machine.runUntil? con o.maxCycles (m, w)).isSome) ∧
      (o.maxCycles ≠ none → (session? args files (.piped input)).isSome) ∧
      ∀ t, session? args files (.piped input) = some t → ∃ ending evs calls,
        Machine.runUntil? con o.maxCycles (m, w) = some ending ∧
        Machine.runUntil? con.journaled o.maxCycles (m, w.noted []) = some (ending.noted calls) ∧
        (Call.runUntil con o.maxCycles w).Trace m evs ending.machine true ∧
        t.stdout = ending.console.console.output.toList ∧
        t.stdout = evs.flatMap Event.written ∧
        Truthful o files ending.machine (∃ e ∈ calls, e.failure ≠ none) t := by
  intro m w con
  have returns : (session? args files (.piped input)).isSome ↔
      (Machine.runUntil? con o.maxCycles (m, w)).isSome := by
    simp only [Option.isSome_iff_exists, session?_eq_some parsed loads]
    constructor
    · rintro ⟨-, evs, s', result, run, -⟩
      exact ⟨_, (runUntil?_eq_some o images input).2 ⟨evs, s', result, run, rfl⟩⟩
    · rintro ⟨ending, ran⟩
      obtain ⟨evs, s', result, run, -⟩ := (runUntil?_eq_some o images input).1 ran
      exact ⟨_, evs, s', result, run, rfl⟩
  refine ⟨returns, fun bounded => returns.2 ?_, fun t said => ?_⟩
  · obtain ⟨max, limited⟩ := Option.ne_none_iff_exists'.1 bounded
    have budget : (Call.runUntil con o.maxCycles w).budget? = some max := limited
    obtain ⟨m', left⟩ := Call.exists_left budget m
    obtain ⟨ending, ran, -⟩ := Option.map_eq_some_iff.1 left
    exact Option.isSome_iff_exists.2 ⟨ending, ran⟩
  · obtain ⟨evs, s', result, run, rfl⟩ := (session?_eq_some parsed loads).1 said
    have ran := (runUntil?_eq_some o images input).2 ⟨evs, s', result, run, rfl⟩
    obtain ⟨calls, journaled, failing⟩ := run.journaled
    have shown : (finished o files (finish o evs s' result)).stdout = s'.2.output.toList :=
      stdout_finished run.endedAs
    have truthful : Truthful o files s'.1 (∃ e ∈ calls, e.failure ≠ none)
        (finished o files (finish o evs s' result)) :=
      truthful_of_finish (f := finish o evs s' result) run.endedAs run.cycles_le failing
    exact ⟨_, evs, calls, ran, journaled, run.trace, shown,
      shown.trans (Console.Stream.output_of_course run.course), truthful⟩

/-- A machine halts with the last instruction that it is allowed. -/
theorem exit_status_truthful_of_halt :
    let args := ["-m", "1", "a.obj", "--dump-state", "out.json"]
    let files : Directory := ⟨[(["a.obj"], .file [0x30, 0x00, 0xF0, 0x25])]⟩
    ∃ t m, session? args files (.piped []) = some t ∧ t.status.code = 0 ∧
      m.state = .halted ∧
      FileSystem.read t.files "out.json" = .ok (stateText m).toUTF8.toList ∧
      readText? Snapshot (stateText m) = some ⟨m.regs, m.state, m.cycles⟩ := by
  intro args files
  let o : Options := ⟨["a.obj"], some 1, false, some "out.json"⟩
  have parsed : Options.ofArguments args = .ok o := by cbv
  let image : Image := ⟨0x3000, [0xF025], by decide, rfl, rfl⟩
  have found : FileSystem.read files "a.obj" = .ok [0x30, 0x00, 0xF0, 0x25] :=
    Directory.read_of_eq_ok (by cbv)
  have written (bytes : List Byte) : FileSystem.write "out.json" bytes files =
      .ok () ⟨files.entries ++ [(["out.json"], .file bytes)]⟩ :=
    Directory.write_of_eq_ok (by cbv)
  have loads : Loads files o.images [image] := .cons ⟨_, found, rfl⟩ .nil
  let m : Machine := [image].foldl Machine.loadImage .initial
  have powered : PoweredOn [image] m := poweredOn [image]
  have hm := powered.read_start rfl rfl Console.Stream.console (Console.Stream.holding [])
  have hd : Instruction.decode 0xF025 = .ok (.trap .halt) := by cbv
  obtain ⟨m₁, c₁, hs, stopped⟩ : ∃ m₁ c₁,
      Machine.step Console.Stream.console (m, Console.Stream.holding []) =
        .ok (.trap .halt) (m₁, c₁) ∧ m₁.state = .halted :=
    ⟨_, _, Machine.step_of_execute powered.state hm hd rfl, rfl⟩
  have counted : m₁.cycles = m.cycles + 1 := Machine.cycles_of_step hs
  have run : Runs o [image] [] [⟨m, .ok (.trap .halt), m₁⟩] (m₁, c₁) (.ok .halted) := by
    refine .done powered.state ?within hs ?room (.halted ?stopped)
    case within =>
      change ¬ (some 1).any (· ≤ m.cycles) = true
      rw [powered.cycles]
      decide
    case room => simp [counted, powered.cycles]
    case stopped => simp [stopped]
  obtain ⟨-, returns, truthful⟩ := exit_status_truthful parsed loads []
  obtain ⟨t, said⟩ := Option.isSome_iff_exists.1 (returns (Option.some_ne_none 1))
  obtain ⟨ending, evs, calls, ran, -, -, -, -, truthful⟩ := truthful t said
  cases ran.symm.trans ((runUntil?_eq_some o [image] []).2 ⟨_, _, _, run, rfl⟩)
  obtain ⟨tells, -, holds, back⟩ := truthful.dumped "out.json" _ rfl (written _)
  exact ⟨t, _, said, tells.halted.2 stopped, stopped, holds (Directory.keeps _), back⟩

end CommandLine

end LittleComputer
