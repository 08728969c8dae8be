import LittleComputer.Console.Basic

/-! A console on a terminal that delivers single key events. Events wait in the terminal until
they are looked at; looking around moves all of them to a queue of keys. Control and C pressed
together are no key but raise the cancel flag. -/
namespace LittleComputer.Console

/-- A key of the keyboard, by what is printed on it. -/
inductive Key where
  | char (c : Char)
  | enter
  | tab
  | backspace
  | escape
  | other

inductive KeyAction where
  | press
  | hold
  | release
deriving DecidableEq

/-- Something the terminal reports. -/
inductive Event where
  | key (k : Key) (control : Bool) (action : KeyAction)
  | notKey

namespace Event

def interrupts : Event → Bool
  | .key (.char 'c') true .press => true
  | _ => false

/-- The byte the machine is given for an event. Only presses of keys with an ASCII meaning
give one. -/
def byte? : Event → Option Byte
  | .key (.char 'c') true .press => none
  | .key (.char c) _ .press => if c.toNat < 128 then some (UInt8.ofNat c.toNat) else none
  | .key .enter _ .press => some 0x0A
  | .key .tab _ .press => some 0x09
  | .key .backspace _ .press => some 0x08
  | .key .escape _ .press => some 0x1B
  | _ => none

end Event

/-- The events not yet looked at, the keys not yet given to the machine, and the output. -/
structure Terminal where
  waiting : List Event := []
  pending : List Byte := []
  output : Array Byte := #[]

namespace Terminal

def interruptedError : Error := ⟨.interrupted, "interrupted by Ctrl-C"⟩

/-- A read with nothing to wait for. -/
def blockedError : Error := ⟨.wouldBlock, "no key event will come"⟩

/-- An event comes in. -/
def arrive (t : Terminal) (e : Event) : Terminal := { t with waiting := t.waiting ++ [e] }

/-- Look at every waiting event. -/
def drain : EStateM Error (Cancellable Terminal) Unit :=
  fun ⟨⟨waiting, pending, output⟩, cancelled⟩ =>
    .ok () ⟨⟨[], pending ++ waiting.filterMap Event.byte?, output⟩,
      cancelled || waiting.any Event.interrupts⟩

/-- Look at waiting events one by one up to the first that gives a byte or interrupts. -/
def await (output : Array Byte) :
    List Event → EStateM.Result Error (Cancellable Terminal) Byte
  | [] => .error blockedError ⟨⟨[], [], output⟩, false⟩
  | e :: waiting =>
    if e.interrupts then .error interruptedError ⟨⟨waiting, [], output⟩, true⟩
    else
      match e.byte? with
      | some b => .ok b ⟨⟨waiting, [], output⟩, false⟩
      | none => await output waiting

/-- Keys already queued are given out before an interruption is reported. A line feed is
written with a carriage return before it. -/
def console : Console (Cancellable Terminal) where
  pollKey := do
    drain
    fun
      | ⟨⟨waiting, b :: pending, output⟩, cancelled⟩ =>
        .ok (some b) ⟨⟨waiting, pending, output⟩, cancelled⟩
      | ⟨t, true⟩ => .error interruptedError ⟨t, true⟩
      | ⟨t, false⟩ => .ok none ⟨t, false⟩
  readKey := fun
    | ⟨⟨waiting, b :: pending, output⟩, cancelled⟩ =>
      .ok b ⟨⟨waiting, pending, output⟩, cancelled⟩
    | ⟨t, true⟩ => .error interruptedError ⟨t, true⟩
    | ⟨⟨waiting, [], output⟩, false⟩ => await output waiting
  writeByte b := fun ⟨⟨waiting, pending, output⟩, cancelled⟩ =>
    .ok () ⟨⟨waiting, pending, if b = 0x0A then (output.push 0x0D).push b else output.push b⟩,
      cancelled⟩
  flush := pure ()
  pump := drain

end Terminal

end LittleComputer.Console
