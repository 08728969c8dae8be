import LittleComputer.Console.Terminal

/-! Someone at a terminal who types what a plan says, each part of it as soon as the program has
put out so many bytes. -/
namespace LittleComputer.Console

structure Typist where
  terminal : Terminal := {}
  /-- The parts still to be typed, each with the output it waits for. -/
  plan : List (Nat × List Event) := []

namespace Typist

/-- Type every part whose turn has come. -/
def type (t : Terminal) : List (Nat × List Event) → Typist
  | [] => ⟨t, []⟩
  | (after, events) :: plan =>
    if after ≤ t.output.size then type { t with waiting := t.waiting ++ events } plan
    else ⟨t, (after, events) :: plan⟩

/-- The typist has typed what needs no output. -/
def start (plan : List (Nat × List Event)) : Typist := type {} plan

/-- What nobody has looked at: the events that wait, and the parts still to be typed. -/
def unread (t : Typist) : List (Nat × List Event) := (0, t.terminal.waiting) :: t.plan

/-- Use the terminal, then let the typist have a look at the output. -/
def watched {α : Type} (x : EStateM Error (Cancellable Terminal) α) :
    EStateM Error (Cancellable Typist) α :=
  fun ⟨⟨t, plan⟩, cancelled⟩ =>
    match x ⟨t, cancelled⟩ with
    | .ok a ⟨t, cancelled⟩ => .ok a ⟨type t plan, cancelled⟩
    | .error e ⟨t, cancelled⟩ => .error e ⟨type t plan, cancelled⟩

def console : Console (Cancellable Typist) where
  pollKey := watched Terminal.console.pollKey
  readKey := watched Terminal.console.readKey
  writeByte b := watched (Terminal.console.writeByte b)
  flush := watched Terminal.console.flush
  pump := watched Terminal.console.pump

end Typist

end LittleComputer.Console
