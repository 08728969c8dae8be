/-! The command line's arguments. Options may stand before, between and after the images until
a lone `--`, and each may be given once. -/
namespace LittleComputer.CommandLine

structure Options where
  images : List String := []
  maxCycles : Option UInt64 := none
  trace : Bool := false
  dumpState : Option String := none

/-- Why the arguments ask for no run. -/
inductive Stop where
  | usage
  | version
  | help
deriving DecidableEq

/-- An option that takes a value. -/
inductive Valued where
  | maxCycles
  | dumpState

/-- A count as it may be written: digits, with a plus sign before them or not. -/
def count? (s : String) : Option UInt64 :=
  let digits := match s.toList with
    | '+' :: ds => ds
    | ds => ds
  if digits.isEmpty || !digits.all Char.isDigit then none
  else
    let n := Nat.ofDigitChars 10 digits 0
    if n < UInt64.size then some (UInt64.ofNat n) else none

namespace Options

/-- A path names something, so an empty one is refused. -/
def addImage (o : Options) (path : String) : Except Stop Options :=
  if path.isEmpty then .error .usage else .ok { o with images := o.images ++ [path] }

def setTrace (o : Options) : Except Stop Options :=
  if o.trace then .error .usage else .ok { o with trace := true }

def setValue (o : Options) (option : Valued) (value : String) : Except Stop Options :=
  match option with
  | .maxCycles =>
    match o.maxCycles, count? value with
    | none, some n => .ok { o with maxCycles := some n }
    | _, _ => .error .usage
  | .dumpState =>
    if o.dumpState.isSome || value.isEmpty then .error .usage
    else .ok { o with dumpState := some value }

/-- Read the letters after a single dash. A letter that takes a value takes the rest of the
argument, past an equals sign if there is one; with no rest it waits for the next argument. -/
def readLetters (o : Options) : List Char → Except Stop (Options × Option Valued)
  | [] => .ok (o, none)
  | 't' :: cs => do readLetters (← o.setTrace) cs
  | ['m'] => .ok (o, some .maxCycles)
  | 'm' :: '=' :: cs => do return (← o.setValue .maxCycles (String.ofList cs), none)
  | 'm' :: cs => do return (← o.setValue .maxCycles (String.ofList cs), none)
  | 'V' :: _ => .error .version
  | 'h' :: _ => .error .help
  | _ => .error .usage

/-- Read what stands after two dashes: a name, and perhaps an equals sign and a value. -/
def readWord (o : Options) (cs : List Char) : Except Stop (Options × Option Valued) :=
  let name := String.ofList (cs.takeWhile (· != '='))
  match name, cs.dropWhile (· != '=') with
  | "max-cycles", [] => .ok (o, some .maxCycles)
  | "max-cycles", _ :: value => do return (← o.setValue .maxCycles (String.ofList value), none)
  | "dump-state", [] => .ok (o, some .dumpState)
  | "dump-state", _ :: value => do return (← o.setValue .dumpState (String.ofList value), none)
  | "trace", [] => do return (← o.setTrace, none)
  | "version", [] => .error .version
  | "help", [] => .error .help
  | _, _ => .error .usage

/-- A dash alone is a plain argument. -/
def isOption (arg : String) : Bool := arg.startsWith "-" && arg != "-"

/-- Read one argument that is no value. -/
def readArgument (o : Options) (arg : String) : Except Stop (Options × Option Valued) :=
  match arg.toList with
  | '-' :: '-' :: cs => o.readWord cs
  | ['-'] => do return (← o.addImage arg, none)
  | '-' :: cs => o.readLetters cs
  | _ => do return (← o.addImage arg, none)

/-- Read the arguments from left to right. The first that is wrong or asks for something else
than a run decides. -/
def readAll (o : Options) : List String → Except Stop Options
  | [] => .ok o
  | "--" :: rest => rest.foldlM addImage o
  | arg :: rest =>
    match o.readArgument arg, rest with
    | .error stop, _ => .error stop
    | .ok (o, none), rest => readAll o rest
    | .ok (_, some _), [] => .error .usage
    | .ok (o, some option), value :: rest =>
      if isOption value then .error .usage
      else
        match o.setValue option value with
        | .error stop => .error stop
        | .ok o => readAll o rest

/-- The options that the arguments set, among them at least one image. -/
def ofArguments (args : List String) : Except Stop Options := do
  let o ← readAll {} args
  if o.images.isEmpty then throw .usage
  return o

end Options

def versionText : String := "lc3 0.1.0\n"

def usageText : String := "Usage: lc3 [OPTIONS] <IMAGES>...\n"

def helpText : String :=
  "A virtual machine for the LC-3 educational computer\n\n" ++ usageText ++
  "\nArguments:\n" ++
  "  <IMAGES>...  Object images to load, in order; later images may overwrite earlier ones\n" ++
  "\nOptions:\n" ++
  "  -m, --max-cycles <MAX_CYCLES>  Stop after this many instructions\n" ++
  "  -t, --trace                    Print each instruction to stderr as it executes\n" ++
  "      --dump-state <PATH>        Write the final machine state as JSON\n" ++
  "  -h, --help                     Print help\n" ++
  "  -V, --version                  Print version\n"

end LittleComputer.CommandLine
