import LittleComputer.CommandLine.Directory
import LittleComputer.CommandLine.Options
import LittleComputer.Console.Stream
import LittleComputer.Console.Typist
import LittleComputer.Image
import LittleComputer.Machine.Run
import LittleComputer.Machine.Snapshot

/-! A session of the command: load the images, run the machine, then report. The parts are
functions of what was read and done, so that they serve a recorded session and a live one. -/
namespace LittleComputer.CommandLine

/-- How a session ends, as the caller of the command sees it. -/
inductive ExitStatus where
  | halted
  | notLoaded
  | wrongUsage
  | faulted
  | ioFailed
  | outOfCycles
  | interrupted
deriving DecidableEq

def ExitStatus.code : ExitStatus → UInt8
  | .halted => 0
  | .notLoaded => 1
  | .wrongUsage => 2
  | .faulted => 3
  | .ioFailed => 4
  | .outOfCycles => 5
  | .interrupted => 130

/-- What remains to be said at the end of a session. -/
structure Report where
  status : ExitStatus
  stdout : String := ""
  stderr : String := ""

/-- The answer to arguments that ask for no run. -/
def Stop.report : Stop → Report
  | .usage => ⟨.wrongUsage, "", "error: wrong usage\n\n" ++ usageText⟩
  | .version => ⟨.halted, versionText, ""⟩
  | .help => ⟨.halted, helpText, ""⟩

/-- The image in the file of a path, or why there is none. -/
def imageAt (read : String → Except String (List Byte)) (path : String) : Except String Image :=
  match read path with
  | .error why => .error ("cannot read " ++ path ++ ": " ++ why)
  | .ok bytes => (Image.ofBytes bytes).mapError Image.Error.message

/-- Load images from the files of the given paths, in order, up to the first that fails. -/
def loadAll (read : String → Except String (List Byte)) (m : Machine) :
    List String → Except Report Machine
  | [] => .ok m
  | path :: paths =>
    match imageAt read path with
    | .error why => .error ⟨.notLoaded, "", "failed to load image: " ++ path ++ ": " ++ why ++ "\n"⟩
    | .ok image => loadAll read (m.loadImage image) paths

/-- A line of a listing: an instruction about to be executed, by its address and word. -/
structure Listed where
  pc : Word
  word : Word
deriving DecidableEq

/-- How the word of a line is shown: as an instruction, if it is one. -/
def Listed.shown (l : Listed) : String :=
  match Instruction.decode l.word with
  | .ok i => i.text
  | .error _ => "??"

/-- The text of a line. The terminal is raw while the machine runs, so the line ends with a
carriage return too. -/
def Listed.text (l : Listed) : String :=
  hex 4 l.pc.toNat ++ ": " ++ hex 4 l.word.toNat ++ "  " ++ l.shown ++ "\r\n"

/-- A watcher who lists each instruction if that was asked for, and never cancels. -/
def lister (o : Options) : Machine.Watcher (Array Listed) := fun m lines =>
  (if o.trace then lines.push ⟨m.regs.pc, m.mem.peek m.regs.pc⟩ else lines, false)

def listingText (lines : List Listed) : String :=
  lines.foldl (fun out l => out ++ l.text) ""

/-- What follows the listing of a run. -/
def summaryLine (o : Options) (m : Machine) : String :=
  if o.trace then "cycles: " ++ m.cycles.toNat.repr ++ ", state: " ++ Named.name m.state ++ "\n"
  else ""

/-- The text of a dumped state. -/
def dumpText (m : Machine) : String := (JsonForm.toJson m.snapshot).pretty

def dumpFailure (path why : String) : Report :=
  ⟨.ioFailed, "", "failed to write state to " ++ path ++ ": " ++ why ++ "\n"⟩

/-- How a run's own end is reported. -/
def conclude (m : Machine) : Except Machine.Error Machine.StopReason → Report
  | .ok .halted => ⟨.halted, "", ""⟩
  | .ok .cancelled => ⟨.interrupted, "\n", ""⟩
  | .ok .cycleLimit =>
    ⟨.outOfCycles, "",
      "stopped after " ++ m.cycles.toNat.repr ++ " instructions without halting\n"⟩
  | .error e =>
    match e with
    | .fault .. => ⟨.faulted, "", e.message ++ "\n"⟩
    | _ => ⟨.ioFailed, "", e.message ++ "\n"⟩

/-- The keyboard of a session: bytes from a pipe, or someone at a terminal. -/
inductive Keyboard where
  | piped (bytes : List Byte)
  | typed (plan : List (Nat × List Console.Event))

/-- A finished session: what was written where, the files afterwards, and what has not been read of
the keyboard. -/
structure Transcript (φ : Type) where
  status : ExitStatus
  stdout : List Byte
  stderr : String
  files : φ
  unread : Keyboard

/-- The end of a run: the machine, the listing, the output, what has not been read, and why it
ended. -/
structure Finish where
  machine : Machine
  listing : List Listed
  output : List Byte
  unread : Keyboard
  result : Except Machine.Error Machine.StopReason

/-- The end of a run on a console whose output and input are known. -/
def Finish.ofEnding {κ : Type} (output : κ → Array Byte) (unread : κ → Keyboard)
    (e : Machine.Ending κ (Array Listed)) : Finish :=
  ⟨e.machine, e.notes.toList, (output e.console.console).toList, unread e.console.console,
    e.result.map (·.reason)⟩

/-- Run a loaded machine on the keyboard. -/
def execute? (o : Options) (m : Machine) : Keyboard → Option Finish
  | .piped bytes =>
    (Machine.runWatched? Console.Stream.console.beside o.maxCycles (lister o) #[]
      (m, ⟨{ reads := bytes.map .byte }, false⟩)).map
        (Finish.ofEnding (·.output) fun c => .piped c.unread)
  | .typed plan =>
    (Machine.runWatched? Console.Typist.console o.maxCycles (lister o) #[]
      (m, ⟨.start plan, false⟩)).map
        (Finish.ofEnding (·.terminal.output) fun c => .typed c.unread)

section
variable {φ : Type} [FileSystem φ]

/-- Dump the state if that was asked for, then report. A dump that fails is reported instead. -/
def close (o : Options) (files : φ) (f : Finish) : Report × φ :=
  match o.dumpState with
  | none => (conclude f.machine f.result, files)
  | some path =>
    match FileSystem.write path (dumpText f.machine).toUTF8.toList files with
    | .ok () files => (conclude f.machine f.result, files)
    | .error why files => (dumpFailure path why, files)

/-- The transcript of a session whose run has come to its end. -/
def finished (o : Options) (files : φ) (f : Finish) : Transcript φ :=
  let (r, files) := close o files f
  ⟨r.status, f.output ++ r.stdout.toUTF8.toList,
    listingText f.listing ++ summaryLine o f.machine ++ r.stderr, files, f.unread⟩

/-- A whole session, with the run of a loaded machine left open. -/
def sessionOn (run : Options → Machine → Keyboard → Option Finish) (args : List String) (files : φ)
    (keyboard : Keyboard) : Option (Transcript φ) :=
  let said (r : Report) : Transcript φ :=
    ⟨r.status, r.stdout.toUTF8.toList, r.stderr, files, keyboard⟩
  match Options.ofArguments args with
  | .error stop => some (said stop.report)
  | .ok o =>
    match loadAll (FileSystem.read files) .initial o.images with
    | .error r => some (said r)
    | .ok m => (run o m keyboard).map (finished o files)

/-- A whole session, if its run comes to an end. -/
def session? (args : List String) (files : φ) (keyboard : Keyboard) : Option (Transcript φ) :=
  sessionOn execute? args files keyboard

end

end LittleComputer.CommandLine
