import LittleComputer.CommandLine.Session

/-! The command. The machine runs a stretch at a time on the input known so far. When it asks
for more, one more byte is read and the stretch is run again from its start, which shows nothing
twice because only what goes beyond the output already shown is written. -/
namespace LittleComputer.CommandLine

/-- The system's words for a failed file operation. -/
private def systemText : IO.Error → String
  | .noFileOrDirectory .. => FileError.notFound.message
  | .inappropriateType _ 21 _ => FileError.isADirectory.message
  | .inappropriateType .. => FileError.notADirectory.message
  | .permissionDenied _ code details => numbered code details
  | .resourceExhausted _ code details => numbered code details
  | .invalidArgument _ code details => numbered code details
  | .hardwareFault code details => numbered code details
  | .otherError code details => numbered code details
  | e => e.toString
where
  numbered (code : UInt32) (details : String) : String :=
    details ++ " (os error " ++ code.toNat.repr ++ ")"

private def attempting {α : Type} (x : IO α) : IO (Except String α) := do
  try return .ok (← x) catch e => return .error (systemText e)

/-- The input known so far, and whether it is all there is. -/
private structure Known where
  bytes : List Byte := []
  ended : Bool := false

/-- A sign that a read goes beyond the known input. -/
private def unknownInput : Console.Error := ⟨.wouldBlock, ""⟩

private def Known.stream (k : Known) : Console.Stream :=
  { reads := k.bytes.map .byte ++ if k.ended then [] else [.fail unknownInput] }

private def stretch : UInt64 := 4096

/-- Run on. `shown` and `listed` say how much of this stretch's output and listing is out. -/
private partial def runOn (o : Options) (m : Machine) (k : Known) (shown listed : Nat) :
    IO (Machine × Except Machine.Error Machine.StopReason) := do
  let budget := match o.maxCycles with
    | none => stretch
    | some max => min stretch (max - m.cycles)
  match Machine.runWatched? Console.Stream.console.beside (some budget) (lister o) #[]
      (m, ⟨k.stream, false⟩) with
  | none => return (m, .ok .cycleLimit)
  | some ⟨m', ⟨c, _⟩, lines, result⟩ =>
    (← IO.getStderr).putStr (listingText (lines.toList.drop listed))
    (← IO.getStderr).flush
    (← IO.getStdout).write ⟨c.output.extract shown⟩
    (← IO.getStdout).flush
    match result with
    | .ok ⟨_, .cycleLimit⟩ =>
      if o.maxCycles = some m'.cycles then return (m', .ok .cycleLimit)
      runOn o m' { k with bytes := c.unread } 0 0
    | .ok s => return (m', .ok s.reason)
    | .error e =>
      if e ≠ .console unknownInput then return (m', .error e)
      let next ← (← IO.getStdin).read 1
      runOn o m ⟨k.bytes ++ next.toList, next.isEmpty⟩ c.output.size lines.size

private def say (r : Report) : IO UInt32 := do
  (← IO.getStdout).putStr r.stdout
  (← IO.getStderr).putStr r.stderr
  return r.status.code.toUInt32

/-- Run a loaded machine, then dump and report. -/
private def runLoaded (o : Options) (m : Machine) : IO UInt32 := do
  let (m, result) ← try runOn o m {} 0 0 catch e =>
    pure (m, .error (.console ⟨.other, systemText e⟩))
  (← IO.getStderr).putStr (summaryLine o m)
  match o.dumpState with
  | none => say (conclude m result)
  | some path =>
    match ← attempting (IO.FS.writeFile path (dumpText m)) with
    | .ok () => say (conclude m result)
    | .error why => say (dumpFailure path why)

end LittleComputer.CommandLine

open LittleComputer CommandLine in
def main (args : List String) : IO UInt32 := do
  match Options.ofArguments args with
  | .error stop => say stop.report
  | .ok o =>
    let files ← o.images.mapM fun (path : String) => do
      return (path, ← attempting do (← IO.FS.Handle.mk path .read).readBinToEnd)
    let read (path : String) := match files.lookup path with
      | some (.ok bytes) => .ok bytes.toList
      | some (.error why) => .error why
      | none => .error ""
    match loadAll read .initial o.images with
    | .error r => say r
    | .ok m => runLoaded o m
