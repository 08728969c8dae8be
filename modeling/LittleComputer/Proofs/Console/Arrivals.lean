import LittleComputer.Proofs.Console.Correspondence
import LittleComputer.Proofs.Console.Terminal

/-! Events that come in at any time, between two calls or in the midst of one. The keys that calls
have delivered, those in the queue and those of the events that wait are the keys of all events in
the order of their arrival, and an interruption is reported once no key is left in the queue. -/
namespace LittleComputer.Console.Terminal

/-- A terminal in use, with the call in progress if there is one. -/
structure Usage where
  terminal : Cancellable Terminal
  calling : Option Request

/-- The key that an answer delivers. -/
def delivered : EStateM.Result Error (Cancellable Terminal) (Option Byte) → List Byte
  | .ok key _ => key.toList
  | .error _ _ => []

/-- What may come to pass from the opening of a terminal on: the events that have come in, the keys
that calls have delivered, and the terminal now. -/
inductive Happened : List Event → List Byte → Usage → Prop
  | opened : Happened [] [] ⟨⟨{}, false⟩, none⟩
  | arrives {arrived : List Event} {returned : List Byte} {t : Cancellable Terminal}
      {calling : Option Request} (before : Happened arrived returned ⟨t, calling⟩) (e : Event) :
      Happened (arrived ++ [e]) returned ⟨⟨t.console.arrive e, t.cancelled⟩, calling⟩
  | asked {arrived : List Event} {returned : List Byte} {t : Cancellable Terminal}
      (before : Happened arrived returned ⟨t, none⟩) (r : Request) :
      Happened arrived returned ⟨t, some r⟩
  | looks {arrived : List Event} {returned : List Byte} {t t' : Cancellable Terminal} {r : Request}
      (before : Happened arrived returned ⟨t, some r⟩) (next : turn r t = .looks t') :
      Happened arrived returned ⟨t', some r⟩
  | answers {arrived : List Event} {returned : List Byte} {t : Cancellable Terminal} {r : Request}
      {result : EStateM.Result Error (Cancellable Terminal) (Option Byte)}
      (before : Happened arrived returned ⟨t, some r⟩) (next : turn r t = .answers result) :
      Happened arrived (returned ++ delivered result) ⟨stateLeft result, none⟩

/-- The ways in which a call comes to its end. -/
inductive Answered : Cancellable Terminal →
    EStateM.Result Error (Cancellable Terminal) (Option Byte) → Prop
  | keyless (t : Cancellable Terminal) : Answered t (.ok none t)
  | queued (waiting : List Event) (b : Byte) (pending : List Byte) (output : Array Byte)
      (flag : Bool) :
      Answered ⟨⟨waiting, b :: pending, output⟩, flag⟩ (.ok (some b) ⟨⟨waiting, pending, output⟩, flag⟩)
  | taken {e : Event} {b : Byte} (byte : e.byte? = some b) (waiting : List Event)
      (output : Array Byte) :
      Answered ⟨⟨e :: waiting, [], output⟩, false⟩ (.ok (some b) ⟨⟨waiting, [], output⟩, false⟩)
  | interrupted (waiting : List Event) (output : Array Byte) :
      Answered ⟨⟨waiting, [], output⟩, true⟩ (.error interruptedError ⟨⟨waiting, [], output⟩, true⟩)

section
variable {r : Request} {t t' : Cancellable Terminal}
  {result : EStateM.Result Error (Cancellable Terminal) (Option Byte)}

/-- A look takes the first event, and puts its key into the queue if it has one. -/
theorem turn_eq_looks (h : turn r t = .looks t') : ∃ e waiting pending output flag,
    t = ⟨⟨e :: waiting, pending, output⟩, flag⟩ ∧
      t' = ⟨⟨waiting, pending ++ e.byte?.toList, output⟩, flag || e.interrupts⟩ := by
  obtain ⟨⟨waiting, pending, output⟩, flag⟩ := t
  cases r with
  | pump | pollKey =>
    cases waiting with
    | nil => cases h
    | cons e waiting =>
      cases h
      exact ⟨_, _, _, _, _, rfl, rfl⟩
  | readKey =>
    cases pending with
    | cons => cases h
    | nil =>
      cases flag with
      | true => cases h
      | false =>
        cases waiting with
        | nil => cases h
        | cons e waiting =>
          rw [turn] at h
          cases byte : e.byte? with
          | some b => simp [byte] at h
          | none =>
            simp only [byte] at h
            cases h
            exact ⟨e, waiting, [], output, false, rfl, by simp [byte]⟩

theorem answered_of_popped (pending : List Byte) (output : Array Byte) (flag : Bool) :
    Answered ⟨⟨[], pending, output⟩, flag⟩ (popped ⟨⟨[], pending, output⟩, flag⟩) := by
  cases pending with
  | cons b pending => exact .queued _ _ _ _ _
  | nil =>
    cases flag with
    | true => exact .interrupted _ _
    | false => exact .keyless _

theorem turn_eq_answers (h : turn r t = .answers result) : Answered t result := by
  obtain ⟨⟨waiting, pending, output⟩, flag⟩ := t
  cases r with
  | pump =>
    cases waiting with
    | cons => cases h
    | nil =>
      cases h
      exact .keyless _
  | pollKey =>
    cases waiting with
    | cons => cases h
    | nil =>
      cases h
      exact answered_of_popped _ _ _
  | readKey =>
    cases pending with
    | cons b pending =>
      cases h
      exact .queued _ _ _ _ _
    | nil =>
      cases flag with
      | true =>
        cases h
        exact .interrupted _ _
      | false =>
        cases waiting with
        | nil => cases h
        | cons e waiting =>
          rw [turn] at h
          cases byte : e.byte? with
          | none => simp [byte] at h
          | some b =>
            simp only [byte] at h
            cases h
            exact .taken byte _ _

/-- A call fails only with an interruption, and only with nothing in the queue. -/
theorem Answered.failed {e : Error} (h : Answered t (.error e t')) :
    e = interruptedError ∧ t' = t ∧ t.cancelled = true ∧ t.console.pending = [] := by
  cases h with
  | interrupted => exact ⟨rfl, rfl, rfl, rfl⟩

end

/-- A call that goes on without anything coming in comes to its end with this result. -/
inductive Settles (r : Request) : Cancellable Terminal →
    EStateM.Result Error (Cancellable Terminal) (Option Byte) → Prop
  | answers {t : Cancellable Terminal}
      {result : EStateM.Result Error (Cancellable Terminal) (Option Byte)}
      (next : turn r t = .answers result) : Settles r t result
  | looks {t t' : Cancellable Terminal}
      {result : EStateM.Result Error (Cancellable Terminal) (Option Byte)}
      (next : turn r t = .looks t') (later : Settles r t' result) : Settles r t result

theorem ask_of_settles {r : Request} {t : Cancellable Terminal}
    {result : EStateM.Result Error (Cancellable Terminal) (Option Byte)}
    (h : Settles r t result) : ask r t = result ∧ ∀ t', result ≠ .error blockedError t' := by
  induction h with
  | answers next =>
    refine ⟨ask_of_answers next, ?_⟩
    rintro t' rfl
    have interrupted := (turn_eq_answers next).failed.1
    cases interrupted
  | looks next _ ih => exact ⟨(ask_of_looks next).trans ih.1, ih.2⟩

/-- A call settles unless there is nothing to go on with before it has come to its end. -/
theorem settles_or_blocked (r : Request) (t : Cancellable Terminal) :
    Settles r t (ask r t) ∨ ∃ t', ask r t = .error blockedError t' := by
  -- Every look leaves one event less.
  induction size : t.console.waiting.length using Nat.strongRecOn generalizing t with
  | ind n ih =>
    cases next : turn r t with
    | answers result =>
      rw [ask_of_answers next]
      exact .inl (.answers next)
    | waits => exact .inr ⟨t, ask_of_waits next⟩
    | looks t' =>
      obtain ⟨e, waiting, pending, output, flag, rfl, left⟩ := turn_eq_looks next
      have fewer : t'.console.waiting.length < n := by
        rw [← size, left]
        exact Nat.lt_succ_self _
      rw [ask_of_looks next]
      rcases ih _ fewer t' rfl with settles | blocked
      · exact .inl (.looks next settles)
      · exact .inr blocked

/-- Where the keys of all events are that have come in, of which these have been looked at. -/
structure Accounted (arrived : List Event) (returned : List Byte) (t : Cancellable Terminal)
    (seen : List Event) : Prop where
  arrived : arrived = seen ++ t.console.waiting
  keys : returned ++ t.console.pending = seen.filterMap Event.byte?
  flag : t.cancelled = true ↔ ∃ e ∈ seen, e.interrupts = true

section
variable {arrived seen : List Event} {returned : List Byte} {waiting : List Event}
  {pending : List Byte} {output : Array Byte} {flag : Bool}

theorem Accounted.look {e : Event}
    (h : Accounted arrived returned ⟨⟨e :: waiting, pending, output⟩, flag⟩ seen) :
    Accounted arrived returned
      ⟨⟨waiting, pending ++ e.byte?.toList, output⟩, flag || e.interrupts⟩ (seen ++ [e]) where
  arrived := by simp [h.arrived]
  keys := by
    have keys := h.keys
    simp only at keys
    rw [← List.append_assoc, keys, List.filterMap_append]
    cases byte : e.byte? <;> simp [byte]
  flag := by
    have raised := h.flag
    simp only at raised
    simp [raised, or_and_right, exists_or]

theorem Accounted.deliver {b : Byte}
    (h : Accounted arrived returned ⟨⟨waiting, b :: pending, output⟩, flag⟩ seen) :
    Accounted arrived (returned ++ [b]) ⟨⟨waiting, pending, output⟩, flag⟩ seen where
  arrived := h.arrived
  keys := (List.append_assoc _ _ _).trans h.keys
  flag := h.flag

end

/-- Nothing gets lost with the end of a call. -/
theorem Answered.accounted {arrived seen : List Event} {returned : List Byte}
    {t : Cancellable Terminal}
    {result : EStateM.Result Error (Cancellable Terminal) (Option Byte)} (h : Answered t result)
    (before : Accounted arrived returned t seen) :
    ∃ seen', Accounted arrived (returned ++ delivered result) (stateLeft result) seen' := by
  cases h with
  | keyless | interrupted => exact ⟨seen, (List.append_nil returned).symm ▸ before⟩
  | queued => exact ⟨seen, before.deliver⟩
  | @taken e b byte waiting output =>
    have calm : e.interrupts = false := by
      cases stop : e.interrupts with
      | false => rfl
      | true => cases (Event.byte?_of_interrupts stop).symm.trans byte
    have looked := before.look
    rw [byte, calm] at looked
    exact ⟨seen ++ [e], looked.deliver⟩

/-- Whatever comes to pass, the keys are accounted for. -/
theorem Happened.accounted {arrived : List Event} {returned : List Byte} {u : Usage}
    (h : Happened arrived returned u) : ∃ seen, Accounted arrived returned u.terminal seen := by
  induction h with
  | opened => exact ⟨[], rfl, rfl, by simp⟩
  | arrives _ e ih =>
    obtain ⟨seen, order, keys, flag⟩ := ih
    exact ⟨seen, by simp [order, arrive], keys, flag⟩
  | asked _ r ih => exact ih
  | looks _ next ih =>
    obtain ⟨seen, before⟩ := ih
    obtain ⟨e, waiting, pending, output, flag, rfl, rfl⟩ := turn_eq_looks next
    exact ⟨seen ++ [e], before.look⟩
  | answers _ next ih =>
    obtain ⟨seen, before⟩ := ih
    exact (turn_eq_answers next).accounted before

theorem settles_iff {r : Request} {t : Cancellable Terminal}
    {result : EStateM.Result Error (Cancellable Terminal) (Option Byte)} :
    Settles r t result ↔ ask r t = result ∧ ∀ t', result ≠ .error blockedError t' := by
  constructor
  · exact ask_of_settles
  · rintro ⟨rfl, unblocked⟩
    rcases settles_or_blocked r t with settles | ⟨t', blocked⟩
    · exact settles
    · exact absurd blocked (unblocked t')

theorem Happened.settled {arrived : List Event} {returned : List Byte} {t : Cancellable Terminal}
    {r : Request} {result : EStateM.Result Error (Cancellable Terminal) (Option Byte)}
    (h : Happened arrived returned ⟨t, some r⟩) (settles : Settles r t result) :
    Happened arrived (returned ++ delivered result) ⟨stateLeft result, none⟩ := by
  induction settles with
  | answers next => exact h.answers next
  | looks next _ ih => exact ih (h.looks next)

/-- A call of the console, with nothing coming in before its end. -/
theorem Happened.called {arrived : List Event} {returned : List Byte} {t : Cancellable Terminal}
    (h : Happened arrived returned ⟨t, none⟩) (r : Request)
    (unblocked : ∀ t', ask r t ≠ .error blockedError t') :
    Happened arrived (returned ++ delivered (ask r t)) ⟨stateLeft (ask r t), none⟩ :=
  (h.asked r).settled (settles_iff.2 ⟨rfl, unblocked⟩)

/-- Whenever events come in and calls are made, the keys that have been returned, those in the queue
and those of the waiting events are the keys of all events in the order of their arrival. The flag
is up just if one of the events that no longer wait asks to stop. A call that fails has found it up
and the queue empty, so the keys of all events looked at have been returned before. A call that is
not overtaken by an event is the console's, and mute events contribute nothing. -/
theorem keys_returned_in_order {arrived : List Event} {returned : List Byte} {u : Usage}
    (h : Happened arrived returned u) :
    returned ++ u.terminal.console.pending ++ u.terminal.console.waiting.filterMap Event.byte? =
        arrived.filterMap Event.byte? ∧
      (∃ seen, arrived = seen ++ u.terminal.console.waiting ∧
        (u.terminal.cancelled = true ↔ ∃ e ∈ seen, e.interrupts = true) ∧
        ∀ r e t, turn r u.terminal = .answers (.error e t) →
          e = interruptedError ∧ t = u.terminal ∧ u.terminal.cancelled = true ∧
            u.terminal.console.pending = [] ∧ returned = seen.filterMap Event.byte?) ∧
      (∀ r result, Settles r u.terminal result ↔
        ask r u.terminal = result ∧ ∀ t, result ≠ .error blockedError t) ∧
      ∀ e ∈ arrived, e.Mute → e.byte? = none ∧ e.interrupts = false := by
  obtain ⟨seen, order, keys, flag⟩ := h.accounted
  refine ⟨?_, ⟨seen, order, flag, ?_⟩, fun _ _ => settles_iff, fun _ _ mute => mute.ignored⟩
  · rw [keys, order, List.filterMap_append]
  · intro r e t next
    obtain ⟨error, same, raised, empty⟩ := (turn_eq_answers next).failed
    rw [empty, List.append_nil] at keys
    exact ⟨error, same, raised, empty, keys⟩

/-- Control and C come in while a pump is in progress. The key before them is returned, a key after
them stays where it is. -/
theorem keys_returned_in_order_of_interruption :
    let a : Event := .key (.char 'a') false .press
    let stop : Event := .key (.char 'c') true .press
    let b : Event := .key (.char 'b') false .press
    ∃ u, Happened [a, stop, b] [0x61] u ∧ u.calling = some .readKey ∧
      turn .readKey u.terminal = .answers (.error interruptedError u.terminal) ∧
      u.terminal.cancelled = true ∧
      [0x61] ++ u.terminal.console.pending ++ u.terminal.console.waiting.filterMap Event.byte? =
        [0x61, 0x62] := by
  intro a stop b
  have pumping : Happened [a] [] ⟨⟨⟨[], [0x61], #[]⟩, false⟩, some .pump⟩ :=
    ((Happened.opened.arrives a).asked .pump).looks rfl
  have pumped : Happened [a, stop] [] ⟨⟨⟨[], [0x61], #[]⟩, true⟩, none⟩ :=
    ((pumping.arrives stop).looks rfl).answers rfl
  have read : Happened [a, stop, b] [0x61] ⟨⟨⟨[b], [], #[]⟩, true⟩, none⟩ :=
    (pumped.arrives b).called .readKey nofun
  have reading := read.asked .readKey
  obtain ⟨keys, ⟨seen, -, -, interrupted⟩, -⟩ := keys_returned_in_order reading
  obtain ⟨-, -, raised, -⟩ := interrupted .readKey _ _ rfl
  exact ⟨_, reading, rfl, rfl, raised, keys⟩

end LittleComputer.Console.Terminal
