import LittleComputer.Proofs.CommandLine.Options
import LittleComputer.Proofs.CommandLine.Running
import LittleComputer.Proofs.CommandLine.StateText
import LittleComputer.Proofs.Instruction.Text
import LittleComputer.Proofs.Machine.FailedStep

/-! What a listing shows, and that nothing else changes with it. A line is made before its
instruction is fetched, from memory as it is then and without asking the console for a key. Away
from the keyboard status that is the word that the machine gets too. -/
namespace LittleComputer
open Machine (Course Event Fetches)
variable {σ : Type} {con : Console σ}

/-- No instruction is shown like a word that is none. -/
theorem instructionText_ne (i : Instruction Reg) : instructionText i ≠ "??" := by
  intro same
  have first := congrArg (·.toList.head?) same
  cases i <;> simp [instructionText, fieldsText] at first

namespace CommandLine
open Machine (Call StopReason)

/-- How a word is shown: as the instruction that it is, if it is one. -/
def shownText (w : Word) : String :=
  match Instruction.decode w with
  | .ok i => instructionText i
  | .error _ => "??"

theorem shownText_of_ok {w : Word} {i : Instruction Reg} (h : Instruction.decode w = .ok i) :
    shownText w = instructionText i := by
  rw [shownText, h]

theorem shownText_of_error {w : Word} {cause : DecodeError}
    (h : Instruction.decode w = .error cause) : shownText w = "??" := by
  rw [shownText, h]

/-- A line for a word at an address: both in hexadecimal, then how the word is shown. -/
def lineText (pc word : Word) : String :=
  hexDigits pc ++ ": " ++ hexDigits word ++ "  " ++ shownText word ++ "\r\n"

theorem Listed.text_eq (l : Listed) : l.text = lineText l.pc l.word := by
  have shown : l.shown = shownText l.word := by
    rw [Listed.shown, shownText]
    cases Instruction.decode l.word with
    | ok i => exact i.text_eq
    | error cause => rfl
  rw [Listed.text, hex_four, hex_four, shown, lineText]

theorem listingText_eq (lines : List Listed) :
    listingText lines = String.join (lines.map fun l => lineText l.pc l.word) := by
  rw [listingText, String.join, List.foldl_map]
  simp only [Listed.text_eq]

/-- How an instruction at `pc` ends whose word is known. -/
inductive EndsFor (pc word : Word) : Except Machine.Error (Instruction Reg) → Prop
  | done {i : Instruction Reg} (decoded : Instruction.decode word = .ok i) : EndsFor pc word (.ok i)
  | failed {i : Instruction Reg} (decoded : Instruction.decode word = .ok i) (e : Console.Error) :
      EndsFor pc word (.error (.console e))
  | faulted {cause : DecodeError} (decoded : Instruction.decode word = .error cause) :
      EndsFor pc word (.error (.fault pc word cause))

theorem endsFor_of_step {m m' : Machine} {c c' : σ}
    {result : Except Machine.Error (Instruction Reg)}
    (h : Course con (m, c) [⟨m, result, m'⟩] (m', c')) (running : m.state = .running)
    (away : m.regs.pc ≠ keyStatus) : EndsFor m.regs.pc (m.mem.peek m.regs.pc) result := by
  have fetched := Memory.read_of_ne away con m.mem c
  cases h with
  | done hs =>
    obtain ⟨-, w, mem, c₁, -, read, decoded, -⟩ := Machine.step_eq_ok hs
    cases read.symm.trans fetched
    exact .done decoded
  | failed hs =>
    cases Machine.step_eq_error hs with
    | stopped stopped => exact absurd running stopped
    | fetch _ status => exact absurd status away
    | decode _ read decoded =>
      cases read.symm.trans fetched
      exact .faulted decoded
    | execute _ read decoded =>
      cases read.symm.trans fetched
      exact .failed decoded _

/-- What is shown of `word` tells which word the machine fetches next, and which instruction it
executes. -/
structure Accurate (con : Console σ) (c : σ) (e : Event) (word : Word) : Prop where
  /-- Nothing is polled for it. -/
  fetched : Memory.read con e.before.regs.pc (e.before.mem, c) = .ok word (e.before.mem, c)
  instruction : ∀ i c₁, Fetches con e.before c i c₁ → shownText word = instructionText i
  executed : ∀ i, e.result = .ok i → shownText word = instructionText i
  unknown : shownText word = "??" ↔ ∃ pc w cause, e.result = .error (.fault pc w cause)
  fault : ∀ pc w cause, e.result = .error (.fault pc w cause) → pc = e.before.regs.pc ∧ w = word

theorem accurate_of_step {e : Event} {c c' : σ} (h : Course con (e.before, c) [e] (e.after, c'))
    (running : e.before.state = .running) (away : e.before.regs.pc ≠ keyStatus) :
    Accurate con c e (e.before.mem.peek e.before.regs.pc) := by
  have ends : EndsFor e.before.regs.pc (e.before.mem.peek e.before.regs.pc) e.result :=
    endsFor_of_step h running away
  have fetched := Memory.read_of_ne away con e.before.mem c
  constructor
  case fetched => exact fetched
  case instruction =>
    rintro i c₁ ⟨w, mem, read, decoded⟩
    cases read.symm.trans fetched
    exact shownText_of_ok decoded
  case executed =>
    intro i result
    rw [result] at ends
    cases ends with
    | done decoded => exact shownText_of_ok decoded
  case unknown =>
    generalize e.result = result at ends
    cases ends with
    | done decoded | failed decoded =>
      rw [shownText_of_ok decoded]
      exact iff_of_false (instructionText_ne _) (by simp)
    | faulted decoded => exact iff_of_true (shownText_of_error decoded) ⟨_, _, _, rfl⟩
  case fault =>
    intro pc w cause result
    rw [result] at ends
    cases ends
    exact ⟨rfl, rfl⟩

/-- The line of an instruction before it is executed. -/
def lineOf (e : Event) : String :=
  lineText e.before.regs.pc (e.before.mem.peek e.before.regs.pc)

/-- The lines that list a run that has come to its end: one for each instruction that was attempted,
which shows what was at the program counter then. -/
structure Listing (images : List Image) (input : List Byte) (evs : List Event)
    (ending : Machine.Ending Console.Stream Unit) (lines : List String) : Prop where
  order : lines = evs.map lineOf
  count : lines.length = ending.machine.cycles.toNat + if ending.result.isOk then 0 else 1
  accurate : ∀ before e after, evs = before ++ e :: after → e.before.regs.pc ≠ 0xFE00 →
    ∃ c c' word, Course Console.Stream.console (beginning images input) before (e.before, c) ∧
      Course Console.Stream.console (e.before, c) [e] (e.after, c') ∧
      lines[before.length]? = some (lineText e.before.regs.pc word) ∧
      Accurate Console.Stream.console c e word ∧ (shownText word = "??" → after = [])

theorem Runs.listing {o : Options} {images : List Image} {input : List Byte} {evs : List Event}
    {s : Machine × Console.Stream} {result : Except Machine.Error StopReason}
    (run : Runs o images input evs s result) :
    Listing images input evs (Machine.seenEnd 0 () s result) (evs.map lineOf) := by
  constructor
  case order => rfl
  case count =>
    have attempted := run.length_eq
    rw [← run.cycles_eq] at attempted
    rw [List.length_map, attempted]
    cases result <;> rfl
  case accurate =>
    intro before e after split away
    obtain ⟨running, c, c', earlier, now⟩ := run.moment split
    have accurate := accurate_of_step now running away
    refine ⟨c, c', _, earlier, now, by simp [split, lineOf], accurate, fun unknown => ?_⟩
    obtain ⟨pc, word, cause, failed⟩ := accurate.unknown.1 unknown
    exact (run.last_of_error split failed).1

/-- What a session says when its run is listed, beside what it says anyway. -/
theorem finished_traced {φ : Type} [FileSystem φ] {o : Options} (untraced : o.trace = false)
    (files : φ) (evs : List Event) (s : Machine × Console.Stream)
    (result : Except Machine.Error StopReason) :
    let t := finished o files (finish o evs s result)
    finished o.traced files (finish o.traced evs s result) =
      { t with
        stderr := String.join (evs.map lineOf) ++
          ("cycles: " ++ s.1.cycles.toNat.repr ++ ", state: " ++ runStateText s.1.state ++ "\n") ++
          t.stderr } := by
  intro t
  -- What is reported and written does not depend on the listing.
  have same : close o.traced files (finish o.traced evs s result) =
      close o files (finish o evs s result) := rfl
  have unlisted : listingText (finish o evs s result).listing ++
      summaryLine o (finish o evs s result).machine = "" := by
    simp [finish, summaryLine, untraced, listingText]
  have listing : listingText (finish o.traced evs s result).listing =
      String.join (evs.map lineOf) := by
    rw [listingText_eq]
    exact congrArg String.join List.map_map
  have summary : summaryLine o.traced (finish o.traced evs s result).machine =
      "cycles: " ++ s.1.cycles.toNat.repr ++ ", state: " ++ runStateText s.1.state ++ "\n" := by
    have named : Named.name s.1.state = runStateText s.1.state := by cases s.1.state <;> rfl
    rw [← named]
    rfl
  simp only [t, finished, same, unlisted, listing, summary, String.empty_append]
  rfl

/-- Listing a run changes nothing but what is said on the error output, where the listing and the
summary come before what is said anyway. -/
theorem tracing_transparent {φ : Type} [FileSystem φ] {args : List String} {o : Options}
    {files : φ} {images : List Image} (parsed : Options.ofArguments args = .ok o)
    (untraced : o.trace = false) (loads : Loads files o.images images) (input : List Byte) :
    let m : Machine := images.foldl Machine.loadImage .initial
    let w : Cancellable Console.Stream := ⟨Console.Stream.holding input, false⟩
    let con := Console.Stream.console.beside
    Options.ofArguments ("--trace" :: args) = .ok o.traced ∧
    ∀ args', Options.ofArguments args' = .ok o.traced →
      (session? args files (.piped input) = none → session? args' files (.piped input) = none) ∧
      ∀ t, session? args files (.piped input) = some t → ∃ ending evs lines,
        Machine.runUntil? con o.maxCycles (m, w) = some ending ∧
        (Call.runUntil con o.maxCycles w).Trace m evs ending.machine true ∧
        Listing images input evs ending lines ∧
        session? args' files (.piped input) = some { t with
          stderr := String.join lines ++
            ("cycles: " ++ ending.machine.cycles.toNat.repr ++ ", state: " ++
              runStateText ending.machine.state ++ "\n") ++
            t.stderr } := by
  intro m w con
  refine ⟨Options.ofArguments_trace parsed untraced, fun args' parsed' => ⟨?_, fun t said => ?_⟩⟩
  · intro silent
    by_contra spoken
    obtain ⟨t, said⟩ := Option.ne_none_iff_exists'.1 spoken
    obtain ⟨evs, s', result, run, -⟩ := (session?_eq_some parsed' loads).1 said
    have said' := (session?_eq_some parsed loads).2 ⟨evs, s', result, run, rfl⟩
    cases silent.symm.trans said'
  · obtain ⟨evs, s', result, run, rfl⟩ := (session?_eq_some parsed loads).1 said
    refine ⟨Machine.seenEnd 0 () s' result, evs, _, ?_, run.trace, run.listing, ?_⟩
    · exact (runUntil?_eq_some o images input).2 ⟨evs, s', result, run, rfl⟩
    · rw [(session?_eq_some parsed' loads).2 ⟨evs, s', result, run, rfl⟩]
      exact congrArg some (finished_traced untraced files evs s' result)

/-- A listing with one line, of a word that is no instruction. -/
theorem tracing_transparent_of_fault :
    let args := ["-m", "1", "a.obj"]
    let files : Directory := ⟨[(["a.obj"], .file [0x30, 0x00, 0xD0, 0x00])]⟩
    ∃ t, session? args files (.piped []) = some t ∧
      session? ("--trace" :: args) files (.piped []) = some { t with
        stderr := "3000: d000  ??\r\n" ++ "cycles: 0, state: Faulted\n" ++ t.stderr } := by
  intro args files
  let o : Options := ⟨["a.obj"], some 1, false, none⟩
  have parsed : Options.ofArguments args = .ok o := by cbv
  let image : Image := ⟨0x3000, [0xD000], by decide, rfl, rfl⟩
  have found : FileSystem.read files "a.obj" = .ok [0x30, 0x00, 0xD0, 0x00] :=
    Directory.read_of_eq_ok (by cbv)
  have loads : Loads files o.images [image] := .cons ⟨_, found, rfl⟩ .nil
  let m : Machine := [image].foldl Machine.loadImage .initial
  have powered : PoweredOn [image] m := poweredOn [image]
  have hm := powered.read_start rfl rfl Console.Stream.console (Console.Stream.holding [])
  have hd : Instruction.decode 0xD000 = .error (.reserved .res 0xD000) := by cbv
  obtain ⟨e, m', hs, state, cycles⟩ : ∃ e m',
      Machine.step Console.Stream.console (m, Console.Stream.holding []) =
        .error e (m', Console.Stream.holding []) ∧ m'.state = .faulted ∧ m'.cycles = 0 :=
    ⟨_, _, Machine.step_of_decode_error powered.state hm hd, rfl, powered.cycles⟩
  have run : Runs o [image] [] [⟨m, .error e, m'⟩] (m', Console.Stream.holding []) (.error e) := by
    refine .failed powered.state ?within hs
    change ¬ (some 1).any (· ≤ m.cycles) = true
    rw [powered.cycles]
    decide
  have said := (session?_eq_some parsed loads).2 ⟨_, _, _, run, rfl⟩
  obtain ⟨parsed', traced⟩ := tracing_transparent parsed rfl loads []
  obtain ⟨ending, evs, lines, ran, trace, listing, said'⟩ := (traced _ parsed').2 _ said
  obtain ⟨rfl, left⟩ := run.trace.unique trace
  have word : m.mem.peek m.regs.pc = 0xD000 := by
    have same := hm.symm.trans (Memory.read_of_ne (by rw [powered.pc]; decide) _ _ _)
    exact (EStateM.Result.ok.inj same).1.symm
  have shown : String.join lines = "3000: d000  ??\r\n" := by
    rw [listing.order, List.map_singleton, lineOf, word, powered.pc]
    cbv
  refine ⟨_, said, said'.trans ?_⟩
  rw [shown, left, cycles, state]
  rfl

end CommandLine

end LittleComputer
