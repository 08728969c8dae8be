import LittleComputer.Machine.Count
import LittleComputer.Json.Form

/-! Running: until the machine stops, for a number of instructions, or until someone asks it to
stop. A run that is given a limit always ends, because each completed instruction is counted. A
run without one ends with the machine, or comes to nothing when the count starts over. -/
namespace LittleComputer.Machine
variable {σ κ τ : Type}

/-- How many instructions are executed between two pumps of the console. -/
def pumpInterval : UInt64 := 1024

/-- The count at which a budget is used up, from a count of `start`. A count never passes the
largest number. -/
def limitFrom (start budget : UInt64) : UInt64 :=
  if start + budget < start then 0xFFFFFFFFFFFFFFFF else start + budget

private theorem count_below {limit before after : UInt64} (h : before < limit)
    (ha : after = before + 1) :
    limit.toNat - after.toNat < limit.toNat - before.toNat := by
  subst ha
  have hl := limit.toNat_lt
  rw [UInt64.lt_iff_toNat_lt] at h
  rw [UInt64.toNat_add, UInt64.toNat_one, Nat.mod_eq_of_lt (by omega)]
  omega

private theorem count_unwrapped {before after : UInt64} (h : after ≠ 0) (ha : after = before + 1) :
    UInt64.size - after.toNat < UInt64.size - before.toNat := by
  subst ha
  have hb := before.toNat_lt
  have hs : UInt64.size = 18446744073709551616 := rfl
  have h0 : (before + 1).toNat ≠ 0 := fun e => h (UInt64.toNat_inj.1 e)
  rw [UInt64.toNat_add, UInt64.toNat_one] at h0 ⊢
  omega

/-- Execute instructions until the machine stops or the count reaches `limit`. -/
def runTo (con : Console σ) (limit : UInt64) (s : Machine × σ) :
    EStateM.Result Error (Machine × σ) Unit :=
  if s.1.isRunning ∧ s.1.cycles < limit then
    match _h : step con s with
    | .ok _ s' => runTo con limit s'
    | .error e s' => .error e s'
  else .ok () s
termination_by limit.toNat - s.1.cycles.toNat
decreasing_by exact count_below (And.right ‹_›) (cycles_of_step _h)

/-- Run for at most `budget` instructions and say how many there were. -/
def runLimited (con : Console σ) (budget : UInt64) : Action σ Error UInt64 := fun s =>
  let start := s.1.cycles
  match runTo con (limitFrom start budget) s with
  | .ok () (m, c) => .ok (m.cycles - start) (m, c)
  | .error e s => .error e s

/-- Execute instructions until the machine stops, if it does before the count starts over. -/
def runOut? (con : Console σ) (s : Machine × σ) :
    Option (EStateM.Result Error (Machine × σ) Unit) :=
  if s.1.isRunning then
    match _h : step con s with
    | .ok _ s' => if _h0 : s'.1.cycles = 0 then none else runOut? con s'
    | .error e s' => some (.error e s')
  else some (.ok () s)
termination_by UInt64.size - s.1.cycles.toNat
decreasing_by exact count_unwrapped _h0 (cycles_of_step _h)

/-- Run until the machine stops and say how many instructions there were. -/
def run? (con : Console σ) (s : Machine × σ) :
    Option (EStateM.Result Error (Machine × σ) UInt64) :=
  let start := s.1.cycles
  (runOut? con s).map fun
    | .ok () (m, c) => .ok (m.cycles - start) (m, c)
    | .error e s => .error e s

/-- Why a run came back without an error. -/
inductive StopReason where
  | halted
  | cycleLimit
  | cancelled
deriving DecidableEq

instance : Named StopReason where
  all := [.halted, .cycleLimit, .cancelled]
  name | .halted => "Halted" | .cycleLimit => "CycleLimit" | .cancelled => "Cancelled"

instance : Outlined StopReason := ⟨fun r => .leaf (Named.name r)⟩

instance : JsonForm StopReason := JsonForm.ofNamed

structure Summary where
  executed : UInt64
  reason : StopReason
deriving DecidableEq

/-- One who watches a run: shown the machine before each instruction, a watcher makes a note
and may ask for the run to be cancelled. -/
abbrev Watcher (τ : Type) := Machine → τ → τ × Bool

/-- The end of a watched run: how the machine and its console were left, what the watcher noted,
and the summary or an error. -/
structure Ending (κ τ : Type) where
  machine : Machine
  console : Cancellable κ
  notes : τ
  result : Except Error Summary

/-- What is found before an instruction: an end of the run, or nothing against going on. -/
inductive Checkpoint (κ : Type) where
  | stop (result : Except Error StopReason) (w : Cancellable κ)
  | go (w : Cancellable κ)

/-- Check, in this order, whether the machine has stopped, the console if its pump is due after
`executed` instructions, whether someone has asked to stop, and the limit. -/
def checkpoint (con : Console (Cancellable κ)) (executed : UInt64) (limit : Option UInt64)
    (m : Machine) (w : Cancellable κ) : Checkpoint κ :=
  if !m.isRunning then .stop (.ok .halted) w
  else
    match (if executed % pumpInterval = 0 then con.pump else pure ()) w with
    | .error e w => .stop (.error (.console e)) w
    | .ok () w =>
      if w.cancelled then .stop (.ok .cancelled) w
      else if limit.any (· ≤ m.cycles) then .stop (.ok .cycleLimit) w
      else .go w

/-- What a failed instruction means for a run. An interrupted console call is an answer to a
request to stop, not an error. -/
def endedBy (e : Error) (cancelled : Bool) : Except Error StopReason :=
  match e with
  | .console cause => if cause.kind = .interrupted ∧ cancelled then .ok .cancelled else .error e
  | _ => .error e

/-- Go on with a run that began at a count of `start`. The watcher looks at the machine once
nothing is against the next instruction, and a request made then is heeded after it. -/
def watchFrom? (con : Console (Cancellable κ)) (start : UInt64) (limit : Option UInt64)
    (watch : Watcher τ) (m : Machine) (w : Cancellable κ) (notes : τ) : Option (Ending κ τ) :=
  match checkpoint con (m.cycles - start) limit m w with
  | .stop result w => some ⟨m, w, notes, result.map fun reason => ⟨m.cycles - start, reason⟩⟩
  | .go w =>
    match watch m notes with
    | (notes, cancels) =>
      match _h : step con (m, { w with cancelled := cancels }) with
      | .ok _ (m', w) =>
        if _h0 : m'.cycles = 0 then none else watchFrom? con start limit watch m' w notes
      | .error e (m, w) =>
        some ⟨m, w, notes, (endedBy e w.cancelled).map fun reason => ⟨m.cycles - start, reason⟩⟩
termination_by UInt64.size - m.cycles.toNat
decreasing_by exact count_unwrapped _h0 (cycles_of_step _h)

/-- Run under the eyes of a watcher until the machine stops, a budget of instructions is used
up or someone asks for it. -/
def runWatched? (con : Console (Cancellable κ)) (budget : Option UInt64) (watch : Watcher τ)
    (notes : τ) (s : Machine × Cancellable κ) : Option (Ending κ τ) :=
  watchFrom? con s.1.cycles (budget.map (limitFrom s.1.cycles)) watch s.1 s.2 notes

/-- Run with nobody watching. -/
def runUntil? (con : Console (Cancellable κ)) (budget : Option UInt64)
    (s : Machine × Cancellable κ) : Option (Ending κ Unit) :=
  runWatched? con budget (fun _ () => ((), false)) () s

end LittleComputer.Machine
