import LittleComputer.Console.Terminal
import LittleComputer.Proofs.Sequence

/-! The calls of a terminal that look at events, one event at a time. A call in progress looks at
the next event or comes to its end, and the whole call is what these turns make of it. -/
namespace LittleComputer.Console

namespace Event

/-- Asking to stop is no key. -/
theorem byte?_of_interrupts {e : Event} (h : e.interrupts = true) : e.byte? = none := by
  unfold interrupts at h
  split at h
  · rfl
  · cases h

/-- Events that are no press of a key with an ASCII meaning. -/
inductive Mute : Event → Prop
  | notKey : Mute .notKey
  | unpressed (k : Key) (control : Bool) {action : KeyAction} (h : action ≠ .press) :
      Mute (.key k control action)
  | unnamed (control : Bool) (action : KeyAction) : Mute (.key .other control action)
  | notAscii {c : Char} (h : 128 ≤ c.toNat) (control : Bool) (action : KeyAction) :
      Mute (.key (.char c) control action)

/-- A mute event contributes nothing: it has no byte and asks nobody to stop. -/
theorem Mute.ignored {e : Event} (h : e.Mute) : e.byte? = none ∧ e.interrupts = false := by
  cases h with
  | notKey => exact ⟨rfl, rfl⟩
  | unnamed control action => cases action <;> exact ⟨rfl, rfl⟩
  | @unpressed k control action unpressed => simp [byte?, interrupts, unpressed]
  | @notAscii c h control action =>
    have hc : c ≠ 'c' := by
      rintro rfl
      exact absurd h (by decide)
    have high : ¬ c.toNat < 128 := by omega
    cases action <;> simp [byte?, interrupts, hc, high]

end Event

namespace Terminal

/-- The terminal once all waiting events have been looked at. -/
def drained : Cancellable Terminal → Cancellable Terminal
  | ⟨⟨waiting, pending, output⟩, flag⟩ =>
    ⟨⟨[], pending ++ waiting.filterMap Event.byte?, output⟩, flag || waiting.any Event.interrupts⟩

/-- The first key of the queue. Only with none left does it matter whether the flag is up. -/
def popped : Cancellable Terminal → EStateM.Result Error (Cancellable Terminal) (Option Byte)
  | ⟨⟨waiting, b :: pending, output⟩, flag⟩ => .ok (some b) ⟨⟨waiting, pending, output⟩, flag⟩
  | ⟨t, true⟩ => .error interruptedError ⟨t, true⟩
  | ⟨t, false⟩ => .ok none ⟨t, false⟩

theorem pump_eq (t : Cancellable Terminal) : console.pump t = .ok () (drained t) := rfl

theorem pollKey_eq (t : Cancellable Terminal) : console.pollKey t = popped (drained t) := rfl

theorem drained_nil (pending : List Byte) (output : Array Byte) (flag : Bool) :
    drained ⟨⟨[], pending, output⟩, flag⟩ = ⟨⟨[], pending, output⟩, flag⟩ := by
  simp [drained]

/-- Looking at all events is looking at the first and then at the others. -/
theorem drained_cons (e : Event) (waiting : List Event) (pending : List Byte)
    (output : Array Byte) (flag : Bool) :
    drained ⟨⟨e :: waiting, pending, output⟩, flag⟩ =
      drained ⟨⟨waiting, pending ++ e.byte?.toList, output⟩, flag || e.interrupts⟩ := by
  cases h : e.byte? <;> simp [drained, h, Bool.or_assoc]

/-- A call that looks at events. -/
inductive Request where
  | pump
  | pollKey
  | readKey

/-- Make a call, which delivers a key or none. -/
def ask : Request → EStateM Error (Cancellable Terminal) (Option Byte)
  | .pump => do
    console.pump
    return none
  | .pollKey => console.pollKey
  | .readKey => do
    return some (← console.readKey)

/-- What a call in progress comes to next. -/
inductive Turn where
  /-- It has taken an event and goes on. -/
  | looks (t : Cancellable Terminal)
  | answers (result : EStateM.Result Error (Cancellable Terminal) (Option Byte))
  /-- There is nothing to go on with. -/
  | waits

/-- The next turn of a call. A pump and a poll put the keys of all events into the queue. A read
has no use for events as long as there is a key in the queue, and gives out the key of an event
at once. -/
def turn : Request → Cancellable Terminal → Turn
  | .readKey, ⟨⟨waiting, b :: pending, output⟩, flag⟩ =>
    .answers (.ok (some b) ⟨⟨waiting, pending, output⟩, flag⟩)
  | .readKey, ⟨⟨waiting, [], output⟩, true⟩ =>
    .answers (.error interruptedError ⟨⟨waiting, [], output⟩, true⟩)
  | .readKey, ⟨⟨[], [], _⟩, false⟩ => .waits
  | .readKey, ⟨⟨e :: waiting, [], output⟩, false⟩ =>
    match e.byte? with
    | some b => .answers (.ok (some b) ⟨⟨waiting, [], output⟩, false⟩)
    | none => .looks ⟨⟨waiting, [], output⟩, e.interrupts⟩
  | .pump, ⟨⟨e :: waiting, pending, output⟩, flag⟩
  | .pollKey, ⟨⟨e :: waiting, pending, output⟩, flag⟩ =>
    .looks ⟨⟨waiting, pending ++ e.byte?.toList, output⟩, flag || e.interrupts⟩
  | .pump, ⟨⟨[], pending, output⟩, flag⟩ => .answers (.ok none ⟨⟨[], pending, output⟩, flag⟩)
  | .pollKey, ⟨⟨[], pending, output⟩, flag⟩ => .answers (popped ⟨⟨[], pending, output⟩, flag⟩)

/-- With nothing in the queue and nobody asking to stop a read waits for a key. -/
private theorem ask_readKey (waiting : List Event) (output : Array Byte) :
    ask .readKey ⟨⟨waiting, [], output⟩, false⟩ =
      match await output waiting with
      | .ok b t => .ok (some b) t
      | .error e t => .error e t := by
  cases h : await output waiting with
  | ok b t => exact bind_of_ok (x := console.readKey) h
  | error e t => exact bind_of_error (x := console.readKey) h

/-- A call is its next turn and then the rest of the call. -/
private theorem ask_eq (r : Request) (t : Cancellable Terminal) :
    ask r t =
      match turn r t with
      | .looks t' => ask r t'
      | .answers result => result
      | .waits => .error blockedError t := by
  obtain ⟨⟨waiting, pending, output⟩, flag⟩ := t
  cases r with
  | pump =>
    cases waiting with
    | nil => exact congrArg (EStateM.Result.ok none) (drained_nil _ _ _)
    | cons e waiting => exact congrArg (EStateM.Result.ok none) (drained_cons _ _ _ _ _)
  | pollKey =>
    cases waiting with
    | nil => exact congrArg popped (drained_nil _ _ _)
    | cons e waiting => exact congrArg popped (drained_cons _ _ _ _ _)
  | readKey =>
    cases pending with
    | cons b pending => rfl
    | nil =>
      cases flag with
      | true => rfl
      | false =>
        cases waiting with
        | nil => rfl
        | cons e waiting =>
          rw [ask_readKey, await, turn]
          cases stop : e.interrupts with
          | true =>
            rw [Event.byte?_of_interrupts stop]
            rfl
          | false =>
            cases byte : e.byte? with
            | some b => rfl
            | none => exact (ask_readKey waiting output).symm

section
variable {r : Request} {t t' : Cancellable Terminal}

/-- Taking an event does not change what a call gives. -/
theorem ask_of_looks (h : turn r t = .looks t') : ask r t = ask r t' := by
  have next := ask_eq r t
  rw [h] at next
  exact next

theorem ask_of_answers {result : EStateM.Result Error (Cancellable Terminal) (Option Byte)}
    (h : turn r t = .answers result) : ask r t = result := by
  have next := ask_eq r t
  rw [h] at next
  exact next

theorem ask_of_waits (h : turn r t = .waits) : ask r t = .error blockedError t := by
  have next := ask_eq r t
  rw [h] at next
  exact next

end

end Terminal

end LittleComputer.Console
