import LittleComputer.Proofs.Machine.Correspondence
import LittleComputer.Proofs.Machine.Polling
import LittleComputer.Proofs.Machine.Transcript
import LittleComputer.Proofs.Trap.Script

/-! The console calls that executing instructions makes. One instruction asks for a key at most
once, and whatever is executed, the first call that fails is the last that is made. -/
namespace LittleComputer
open Console (Entry EndIn Journaled OneKey Plays)
open Cancellable (SameConsole)
variable {κ τ α : Type}

namespace Machine

/-- The console error that an error of the machine comes from. -/
def Error.cause? : Error → Option Console.Error
  | .console cause => some cause
  | .notRunning _ | .fault .. => none

/-- The console error that something failed with. -/
def consoleFailure? {σ : Type} (r : EStateM.Result Error σ α) : Option Console.Error :=
  (failure? r).bind Error.cause?

theorem consoleFailure?_withState {σ : Type} (f : σ → τ) (r : EStateM.Result Error σ α) :
    consoleFailure? (withState f r) = consoleFailure? r := by
  cases r <;> rfl

section Journaled
variable {con : Console (Cancellable κ)} {m m' : Machine} {v v' : Cancellable (Journaled κ)}

private theorem polled_plays
    {r : EStateM.Result Console.Error (Cancellable (Journaled κ)) (Option Byte)}
    (h : con.journaled.pollKey v = r) :
    ∃ new, (stateLeft r).calls = v.calls ++ new ∧ Plays [.pollKey] new (failure? r) := by
  subst h
  exact Console.noting_follows v .pollKey con.pollKey

private theorem routine_plays {vector : TrapVector} {rs : Registers}
    {r : EStateM.Result Console.Error (Registers × Cancellable (Journaled κ)) Trap.Outcome}
    (h : Trap.run con.journaled m.mem vector (rs, v) = r) : ∃ script, OneKey script ∧
      ∃ new, (stateLeft r).2.calls = v.calls ++ new ∧ Plays script new (failure? r) := by
  subst h
  obtain ⟨key, -, follows⟩ := Trap.run_follows con m.mem vector rs v
  exact ⟨_, Trap.oneKey_script _ _ key vector, follows⟩

/-- The calls of one instruction: at most one is for a key, none is a pump, and all have succeeded
unless the instruction fails on the console, when only the last has failed. -/
theorem step_calls (con : Console (Cancellable κ)) (m : Machine)
    (v : Cancellable (Journaled κ)) : ∃ new,
      (stateLeft (step con.journaled (m, v))).2.calls = v.calls ++ new ∧
      EndIn new (consoleFailure? (step con.journaled (m, v))) ∧
      OneKey (new.map Entry.call) := by
  have played {script : List Console.Call} (oneKey : OneKey script)
      {v' : Cancellable (Journaled κ)} {failure : Option Console.Error}
      (h : ∃ new, v'.calls = v.calls ++ new ∧ Plays script new failure) : ∃ new,
      v'.calls = v.calls ++ new ∧ EndIn new failure ∧ OneKey (new.map Entry.call) := by
    obtain ⟨new, journaled, plays⟩ := h
    exact ⟨new, journaled, plays.endIn, oneKey.of_prefix plays.isPrefix⟩
  have poll : OneKey [.pollKey] := ⟨by decide, by decide⟩
  have silent : OneKey [] := ⟨by decide, by decide⟩
  have asked {addresses : List Word} {mem : Memory} {v' : Cancellable (Journaled κ)}
      (h : Asked con.journaled v addresses mem v') : ∃ new,
      v'.calls = v.calls ++ new ∧ EndIn new none ∧ OneKey (new.map Entry.call) := by
    rw [Asked] at h
    split at h
    · obtain ⟨key, polled⟩ := h
      exact played poll (polled_plays polled.polled)
    · exact played silent ⟨[], by rw [h, List.append_nil], .done⟩
  cases hs : step con.journaled (m, v) with
  | ok i s =>
    by_cases ht : ∃ vector, i = .trap vector
    · obtain ⟨vector, rfl⟩ := ht
      obtain ⟨-, o, regs, ran, -⟩ := step_trap_eq_ok hs
      obtain ⟨script, oneKey, plays⟩ := routine_plays ran
      exact played oneKey plays
    · exact asked (asked_of_step hs (not_exists.1 ht))
  | error e s =>
    obtain ⟨m', v'⟩ := s
    cases e with
    | console cause =>
      rcases step_eq_console_error hs with polled | ⟨-, vector, regs, -, ran⟩
      · exact played poll (polled_plays polled)
      · obtain ⟨script, oneKey, plays⟩ := routine_plays ran
        exact played oneKey plays
    | notRunning =>
      cases step_eq_error hs
      exact played silent ⟨[], by rw [stateLeft, List.append_nil], .done⟩
    | fault =>
      cases step_eq_error hs with
      | decode _ fetched => exact asked (asked_of_read fetched)

theorem calls_of_step {i : Instruction Reg} (h : step con.journaled (m, v) = .ok i (m', v')) :
    ∃ new, v'.calls = v.calls ++ new ∧ (∀ e ∈ new, e.failure = none) ∧
      OneKey (new.map Entry.call) := by
  obtain ⟨new, journaled, ends, oneKey⟩ := step_calls con m v
  rw [h] at journaled ends
  cases ends with
  | smooth all => exact ⟨new, journaled, all, oneKey⟩

/-- What has been written down since `v` has ended in the failure of the result. -/
def Accounted (v : Cancellable (Journaled κ))
    (r : EStateM.Result Error (Machine × Cancellable (Journaled κ)) α) : Prop :=
  ∃ new, (stateLeft r).2.calls = v.calls ++ new ∧ EndIn new (consoleFailure? r)

namespace Accounted
variable {r : EStateM.Result Error (Machine × Cancellable (Journaled κ)) α}

theorem silent (a : α) : Accounted v (.ok a (m, v)) :=
  ⟨[], by rw [stateLeft, List.append_nil], .nil⟩

theorem after_step {i : Instruction Reg} (hs : step con.journaled (m, v) = .ok i (m', v'))
    (rest : Accounted v' r) : Accounted v r := by
  obtain ⟨new, journaled, all, -⟩ := calls_of_step hs
  obtain ⟨later, journaled', ends⟩ := rest
  rw [journaled, List.append_assoc] at journaled'
  exact ⟨new ++ later, journaled', .append (.smooth all) ends⟩

theorem of_step_error {e : Error} (hs : step con.journaled (m, v) = .error e (m', v')) :
    Accounted v (.error e (m', v') : EStateM.Result Error _ α) := by
  obtain ⟨new, journaled, ends, -⟩ := step_calls con m v
  rw [hs] at journaled ends
  exact ⟨new, journaled, ends⟩

end Accounted

private theorem runTo_accounted (con : Console (Cancellable κ)) (limit : UInt64)
    (s : Machine × Cancellable (Journaled κ)) :
    Accounted s.2 (runTo con.journaled limit s) := by
  fun_induction runTo con.journaled limit s with
  | case1 s go i s' hs ih => exact ih.after_step hs
  | case2 s go e s' hs => exact .of_step_error hs
  | case3 s stop => exact .silent ()

private theorem runOut?_accounted (s : Machine × Cancellable (Journaled κ))
    {r : EStateM.Result Error (Machine × Cancellable (Journaled κ)) Unit}
    (h : runOut? con.journaled s = some r) : Accounted s.2 r := by
  fun_induction runOut? con.journaled s with
  | case1 => cases h
  | case2 s go i s' hs room ih => exact (ih h).after_step hs
  | case3 s go e s' hs =>
    cases h
    exact .of_step_error hs
  | case4 s stop =>
    cases h
    exact .silent ()

end Journaled

/-- How a request was answered and which calls were made for it. Either all of them succeeded, or
only the last has failed and its error is the answer. A run that heeds the flag may take an
interrupted call of an instruction for the answer to a request to stop. -/
inductive Settles (heeds : Bool) :
    List Entry → EStateM.Result Error (Machine × Cancellable κ) Answer → Prop
  | unfailed {calls : List Entry} {r : EStateM.Result Error (Machine × Cancellable κ) Answer}
      (all : ∀ e ∈ calls, e.failure = none) (other : consoleFailure? r = none) :
      Settles heeds calls r
  | failed {earlier : List Entry} {call : Console.Call} {cause : Console.Error}
      {s : Machine × Cancellable κ} (before : ∀ e ∈ earlier, e.failure = none)
      (stands : heeds = true → call ≠ .pump → cause.kind = .interrupted → s.2.cancelled = false) :
      Settles heeds (earlier ++ [⟨call, some cause⟩]) (.error (.console cause) s)
  | cancelled {earlier : List Entry} {call : Console.Call} {cause : Console.Error}
      {s : Machine × Cancellable κ} (n : UInt64) (before : ∀ e ∈ earlier, e.failure = none)
      (heeded : heeds = true) (inside : call ≠ .pump) (interrupted : cause.kind = .interrupted)
      (raised : s.2.cancelled = true) :
      Settles heeds (earlier ++ [⟨call, some cause⟩]) (.ok (.summary ⟨n, .cancelled⟩) s)

namespace Settles
variable {heeds : Bool} {earlier calls : List Entry}
  {r : EStateM.Result Error (Machine × Cancellable κ) Answer}

theorem after (before : ∀ e ∈ earlier, e.failure = none) (h : Settles heeds calls r) :
    Settles heeds (earlier ++ calls) r := by
  cases h with
  | unfailed all other => exact .unfailed (List.forall_mem_append.2 ⟨before, all⟩) other
  | failed before' stands =>
    rw [← List.append_assoc]
    exact .failed (List.forall_mem_append.2 ⟨before, before'⟩) stands
  | cancelled n before' heeded inside interrupted raised =>
    rw [← List.append_assoc]
    exact .cancelled n (List.forall_mem_append.2 ⟨before, before'⟩) heeded inside interrupted raised

/-- Where nobody heeds the flag, or no instruction makes a call, a failure is an error. -/
theorem of_endIn (h : EndIn calls (consoleFailure? r))
    (outside : heeds = true → ∀ e ∈ calls, e.call = .pump) : Settles heeds calls r := by
  generalize hf : consoleFailure? r = failure at h
  cases h with
  | smooth all => exact .unfailed all hf
  | failing call cause before =>
    cases r with
    | ok => cases hf
    | error e s =>
      cases e with
      | notRunning | fault => cases hf
      | console =>
        cases hf
        exact .failed before fun heeded inside =>
          absurd (outside heeded _ List.mem_concat_self) inside

end Settles

namespace Accounted
variable {v : Cancellable (Journaled κ)}

theorem counted {r : EStateM.Result Error (Machine × Cancellable (Journaled κ)) Unit}
    (h : Accounted v r) (start : UInt64) : Accounted v (counted start r) := by
  cases r <;> exact h

theorem settles {r : EStateM.Result Error (Machine × Cancellable (Journaled κ)) α}
    (h : Accounted v r) (f : α → Answer) : ∃ new,
      (stateLeft (answering f r)).2.calls = v.calls ++ new ∧ Settles false new (answering f r) := by
  obtain ⟨new, journaled, ends⟩ := h
  cases r <;> exact ⟨new, journaled, .of_endIn ends nofun⟩

end Accounted

/-- The end of a watched run as the result of a request. -/
def Ending.reply (ending : Ending κ τ) : EStateM.Result Error (Machine × Cancellable κ) Answer :=
  match ending.result with
  | .ok summary => .ok (.summary summary) (ending.machine, ending.console)
  | .error e => .error e (ending.machine, ending.console)

theorem stateLeft_reply (ending : Ending κ τ) :
    stateLeft ending.reply = (ending.machine, ending.console) := by
  rw [Ending.reply]
  cases ending.result <;> rfl

theorem reply_matches {ending : Ending κ τ} {ending' : Ending (Journaled κ) τ}
    (h : ending.Matches Eq SameConsole ending') :
    Matches (Error.Matches Eq) (Beside SameConsole) ending.reply ending'.reply :=
  told_matches ⟨h.machine, h.console⟩ h.result

section Watched
variable {con : Console (Cancellable κ)} {executed start : UInt64} {limit : Option UInt64}
  {m m' : Machine} {v v' : Cancellable (Journaled κ)}

/-- The console that a checkpoint leaves. -/
def Checkpoint.console : Checkpoint κ → Cancellable κ
  | .stop _ w | .go w => w

/-- The console error that a checkpoint stops a run with. -/
def Checkpoint.failure? : Checkpoint κ → Option Console.Error
  | .stop (.error e) _ => e.cause?
  | .stop (.ok _) _ | .go _ => none

private theorem pump_calls (con : Console (Cancellable κ)) (executed : UInt64)
    (v : Cancellable (Journaled κ)) : ∃ new,
      (stateLeft ((if executed % pumpInterval = 0 then con.journaled.pump else pure ()) v)).calls =
        v.calls ++ new ∧
      EndIn new (LittleComputer.failure?
        ((if executed % pumpInterval = 0 then con.journaled.pump else pure ()) v)) ∧
      ∀ e ∈ new, e.call = .pump := by
  split
  · obtain ⟨new, journaled, plays⟩ := Console.noting_follows v .pump con.pump
    refine ⟨new, journaled, plays.endIn, fun e he => ?_⟩
    exact List.mem_singleton.1 (plays.isPrefix.subset (List.mem_map_of_mem he))
  · exact ⟨[], (List.append_nil _).symm, .nil, List.forall_mem_nil _⟩

/-- A checkpoint makes no other call than a pump, and stops the run if that fails. -/
private theorem checkpoint_calls (con : Console (Cancellable κ)) (executed : UInt64)
    (limit : Option UInt64) (m : Machine) (v : Cancellable (Journaled κ)) : ∃ new,
      (checkpoint con.journaled executed limit m v).console.calls = v.calls ++ new ∧
      EndIn new (checkpoint con.journaled executed limit m v).failure? ∧
      ∀ e ∈ new, e.call = .pump := by
  have pumped := pump_calls con executed v
  by_cases running : m.isRunning = true
  · cases pump : (if executed % pumpInterval = 0 then con.journaled.pump else pure ()) v with
    | error e w =>
      have stop : checkpoint con.journaled executed limit m v = .stop (.error (.console e)) w := by
        simp [checkpoint, running, pump]
      rw [pump] at pumped
      rw [stop]
      exact pumped
    | ok u w =>
      have next : checkpoint con.journaled executed limit m v =
          if w.cancelled then .stop (.ok .cancelled) w
          else if limit.any (· ≤ m.cycles) then .stop (.ok .cycleLimit) w
          else .go w := by
        simp [checkpoint, running, pump]
      rw [pump] at pumped
      obtain ⟨new, called⟩ := pumped
      refine ⟨new, ?_⟩
      rw [next]
      split
      · exact called
      · split <;> exact called
  · have stop : checkpoint con.journaled executed limit m v = .stop (.ok .halted) v := by
      simp [checkpoint, running]
    rw [stop]
    exact ⟨[], (List.append_nil _).symm, .nil, List.forall_mem_nil _⟩

private theorem calls_of_go (h : checkpoint con.journaled executed limit m v = .go v') :
    ∃ new, v'.calls = v.calls ++ new ∧ ∀ e ∈ new, e.failure = none := by
  obtain ⟨new, journaled, ends, -⟩ := checkpoint_calls con executed limit m v
  rw [h] at journaled ends
  cases ends with
  | smooth all => exact ⟨new, journaled, all⟩

private theorem settles_of_step_error {e : Error} (n : UInt64) (notes : τ)
    (hs : step con.journaled (m, v) = .error e (m', v')) : ∃ new, v'.calls = v.calls ++ new ∧
      Settles true new (Ending.reply
        ⟨m', v', notes, (endedBy e v'.cancelled).map fun reason => ⟨n, reason⟩⟩) := by
  obtain ⟨new, journaled, ends, oneKey⟩ := step_calls con m v
  rw [hs] at journaled ends
  refine ⟨new, journaled, ?_⟩
  cases e with
  | notRunning | fault =>
    cases ends with
    | smooth all => exact .unfailed all rfl
  | console cause =>
    generalize hf : consoleFailure? (.error (.console cause) (m', v')) = failure at ends
    cases ends with
    | smooth => cases hf
    | failing call _ before =>
      cases hf
      have inside : call ≠ .pump := by
        rintro rfl
        exact oneKey.unpumped (by simp)
      rw [endedBy]
      split
      next heeded => exact .cancelled n before rfl inside heeded.1 heeded.2
      next unheeded =>
        exact .failed before fun _ _ kind =>
          Bool.eq_false_iff.2 fun raised => unheeded ⟨kind, raised⟩

private theorem watchFrom?_settles (watch : Watcher τ) (notes : τ)
    {ending : Ending (Journaled κ) τ}
    (h : watchFrom? con.journaled start limit watch m v notes = some ending) :
    ∃ new, ending.console.calls = v.calls ++ new ∧ Settles true new ending.reply := by
  fun_induction watchFrom? con.journaled start limit watch m v notes with
  | case1 m v notes result v₁ stop =>
    cases h
    obtain ⟨new, journaled, ends, pumps⟩ := checkpoint_calls con (m.cycles - start) limit m v
    rw [stop] at journaled ends
    refine ⟨new, journaled, .of_endIn ?_ fun _ => pumps⟩
    cases result <;> exact ends
  | case2 => cases h
  | case3 m v notes v₁ go notes₁ cancels seen i m' v₂ done room ih =>
    obtain ⟨pumps, journaled, smooth⟩ := calls_of_go go
    obtain ⟨new, journaled', all, -⟩ := calls_of_step done
    obtain ⟨later, journaled'', settles⟩ := ih h
    refine ⟨pumps ++ (new ++ later), ?_, (settles.after all).after smooth⟩
    calc ending.console.calls = v₂.calls ++ later := journaled''
      _ = (v₁.calls ++ new) ++ later := congrArg (· ++ later) journaled'
      _ = v.calls ++ (pumps ++ (new ++ later)) := by simp only [journaled, List.append_assoc]
  | case4 m v notes v₁ go notes₁ cancels seen e m' v₂ failed =>
    cases h
    obtain ⟨pumps, journaled, smooth⟩ := calls_of_go go
    obtain ⟨new, journaled', settles⟩ := settles_of_step_error (m'.cycles - start) notes₁ failed
    refine ⟨pumps ++ new, ?_, settles.after smooth⟩
    calc v₂.calls = v₁.calls ++ new := journaled'
      _ = v.calls ++ (pumps ++ new) := by rw [journaled, List.append_assoc]

end Watched

/-- A loop comes to a point between two instructions. -/
inductive Loop.Reaches {σ : Type} (l : Loop σ τ) : Machine → σ → τ → Machine → σ → Prop
  | here {m : Machine} {c : σ} {t : τ} : Reaches l m c t m c
  | next {m m₁ m' : Machine} {c c₁ c₂ c' : σ} {t t₁ : τ} {i : Instruction Reg}
      (h : l.next? m c t = some (c₁, t₁)) (hs : step l.console (m, c₁) = .ok i (m₁, c₂))
      (rest : Reaches l m₁ c₂ t₁ m' c') : Reaches l m c t m' c'

/-- If a loop makes no failing calls of its own, no call has failed where it goes on. -/
theorem Loop.Reaches.unfailed {con : Console (Cancellable κ)}
    {l : Loop (Cancellable (Journaled κ)) τ} (journaled : l.console = con.journaled)
    (quiet : ∀ {m v t v₁ t₁}, l.next? m v t = some (v₁, t₁) →
      ∃ new, v₁.calls = v.calls ++ new ∧ ∀ e ∈ new, e.failure = none)
    {m m' : Machine} {v v' : Cancellable (Journaled κ)} {t : τ} (h : l.Reaches m v t m' v') :
    ∃ new, v'.calls = v.calls ++ new ∧ ∀ e ∈ new, e.failure = none := by
  induction h with
  | here => exact ⟨[], (List.append_nil _).symm, List.forall_mem_nil _⟩
  | next h hs _ ih =>
    obtain ⟨before, h₁, smooth⟩ := quiet h
    obtain ⟨new, h₂, smooth', -⟩ := calls_of_step (journaled ▸ hs)
    obtain ⟨later, h₃, smooth''⟩ := ih
    refine ⟨before ++ (new ++ later), by simp only [h₃, h₂, h₁, List.append_assoc], ?_⟩
    exact List.forall_mem_append.2 ⟨smooth, List.forall_mem_append.2 ⟨smooth', smooth''⟩⟩

private theorem calls_of_next? {con : Console (Cancellable κ)} {start : UInt64}
    {limit : Option UInt64} {watch : Watcher τ} {m : Machine} {v v₁ : Cancellable (Journaled κ)}
    {notes notes₁ : τ}
    (h : (Loop.watched con.journaled start limit watch).next? m v notes = some (v₁, notes₁)) :
    ∃ new, v₁.calls = v.calls ++ new ∧ ∀ e ∈ new, e.failure = none := by
  simp only [Loop.watched] at h
  split at h
  next => cases h
  next w go =>
    obtain ⟨new, journaled, smooth⟩ := calls_of_go go
    cases h
    exact ⟨new, journaled, smooth⟩

/-- What may be asked of a machine on a console that knows of the flag. -/
inductive Request (τ : Type) where
  | step
  | run
  | runLimited (budget : UInt64)
  | runUntil (budget : Option UInt64)
  | runWatched (budget : Option UInt64) (watch : Watcher τ) (notes : τ)

namespace Request

/-- The result of a request, if it comes to an end. -/
def reply? (con : Console (Cancellable κ)) (s : Machine × Cancellable κ) :
    Request τ → Option (EStateM.Result Error (Machine × Cancellable κ) Answer)
  | step => some (answering .instruction (Machine.step con s))
  | run => (run? con s).map (answering .executed)
  | runLimited budget => some (answering .executed (Machine.runLimited con budget s))
  | runUntil budget => (runUntil? con budget s).map Ending.reply
  | runWatched budget watch notes => (runWatched? con budget watch notes s).map Ending.reply

/-- Whether a request looks at the flag. -/
def heeds : Request τ → Bool
  | step | run | runLimited _ => false
  | runUntil _ | runWatched .. => true

/-- A request that has not come to its end is at this point between two instructions. -/
def Passes (con : Console (Cancellable κ)) (s : Machine × Cancellable κ) :
    Request τ → Machine → Cancellable κ → Prop
  | step => (Loop.once con).Reaches s.1 s.2 true
  | run => (Loop.whileRunning con).Reaches s.1 s.2 ()
  | runLimited budget => (Loop.below con (limitFrom s.1.cycles budget)).Reaches s.1 s.2 ()
  | runUntil budget =>
    (Loop.watched con s.1.cycles (budget.map (limitFrom s.1.cycles)) fun _ () =>
      ((), false)).Reaches s.1 s.2 ()
  | runWatched budget watch notes =>
    (Loop.watched con s.1.cycles (budget.map (limitFrom s.1.cycles)) watch).Reaches s.1 s.2 notes

variable {con : Console (Cancellable κ)} {s : Machine × Cancellable κ}

/-- A request comes to its end whether or not its calls are written down, and in the same way. -/
theorem reply?_parallel (con : Console (Cancellable κ)) {s : Machine × Cancellable κ}
    {t : Machine × Cancellable (Journaled κ)} (states : Beside SameConsole s t)
    (request : Request τ) : (request.reply? con s).Rel
      (Matches (Error.Matches Eq) (Beside SameConsole)) (request.reply? con.journaled t) := by
  have mirrors := Console.journaled_mirrors con
  cases request with
  | step => exact .some (answering_matches _ (step_parallel mirrors s t states))
  | run => exact (run?_parallel mirrors states).map fun _ _ => answering_matches _
  | runLimited budget =>
    exact .some (answering_matches _ (runLimited_parallel mirrors budget s t states))
  | runUntil budget =>
    exact (runWatched?_parallel mirrors (fun _ _ => congrArg _) budget _ states ()).map fun _ _ =>
      reply_matches
  | runWatched budget watch notes =>
    exact (runWatched?_parallel mirrors (fun _ _ => congrArg _) budget watch states notes).map
      fun _ _ => reply_matches

/-- What is written down in the course of a request has ended as the request has. -/
theorem reply?_settles (request : Request τ) {s : Machine × Cancellable (Journaled κ)}
    {r : EStateM.Result Error (Machine × Cancellable (Journaled κ)) Answer}
    (h : request.reply? con.journaled s = some r) :
    ∃ new, (stateLeft r).2.calls = s.2.calls ++ new ∧ Settles request.heeds new r := by
  cases request with
  | step =>
    obtain ⟨new, journaled, ends, -⟩ := step_calls con s.1 s.2
    cases h
    exact Accounted.settles ⟨new, journaled, ends⟩ _
  | run =>
    simp only [reply?, run?_eq, Option.map_map, Option.map_eq_some_iff] at h
    obtain ⟨r, ran, rfl⟩ := h
    exact ((runOut?_accounted s ran).counted _).settles _
  | runLimited budget =>
    rw [reply?, runLimited_eq] at h
    cases h
    exact ((runTo_accounted con _ s).counted _).settles _
  | runUntil budget | runWatched budget watch notes =>
    obtain ⟨ending, ran, rfl⟩ := Option.map_eq_some_iff.1 h
    obtain ⟨new, journaled, settles⟩ := watchFrom?_settles _ _ ran
    rw [stateLeft_reply]
    exact ⟨new, journaled, settles⟩

/-- As long as a request goes on no call has failed. -/
theorem Passes.unfailed {request : Request τ} {s : Machine × Cancellable (Journaled κ)}
    {m : Machine} {v : Cancellable (Journaled κ)} (h : request.Passes con.journaled s m v) :
    ∃ new, v.calls = s.2.calls ++ new ∧ ∀ e ∈ new, e.failure = none := by
  have silent {g : Prop} [Decidable g] {v v₁ : Cancellable (Journaled κ)} {α : Type} {t t₁ : α}
      (h : (if g then some (v, t) else none) = some (v₁, t₁)) :
      ∃ new, v₁.calls = v.calls ++ new ∧ ∀ e ∈ new, e.failure = none := by
    split at h
    · cases h
      exact ⟨[], (List.append_nil _).symm, List.forall_mem_nil _⟩
    · cases h
  cases request with
  | step | run | runLimited budget => exact Loop.Reaches.unfailed rfl silent h
  | runUntil budget | runWatched budget watch notes =>
    exact Loop.Reaches.unfailed rfl calls_of_next? h

end Request

/-- A machine beside a journal with these calls in it. -/
abbrev besideCalls (calls : List Entry) (s : Machine × Cancellable κ) :
    Machine × Cancellable (Journaled κ) := (s.1, s.2.noted calls)

/-- A result without its journal has come about in the same way. -/
theorem Settles.of_withState {heeds : Bool} {calls noted : List Entry}
    {r : EStateM.Result Error (Machine × Cancellable κ) Answer}
    (h : Settles heeds calls (withState (besideCalls noted) r)) : Settles heeds calls r := by
  generalize hr : withState (besideCalls noted) r = r' at h
  cases h with
  | unfailed all other =>
    subst hr
    exact .unfailed all ((consoleFailure?_withState _ r).symm.trans other)
  | failed before stands =>
    cases r with
    | ok => cases hr
    | error e s =>
      cases hr
      exact .failed before stands
  | cancelled n before heeded inside interrupted raised =>
    cases r with
    | ok a s =>
      cases hr
      exact .cancelled n before heeded inside interrupted raised
    | error => cases hr

/-- Writing the calls down changes nothing. An instruction asks for a key at most once, and the
first call that fails is the last of a request and decides its result. -/
theorem failed_call_settles (con : Console (Cancellable κ)) (m : Machine) (w : Cancellable κ) :
    (∃ calls, step con.journaled (besideCalls [] (m, w)) =
        withState (besideCalls calls) (step con (m, w)) ∧
      calls.countP (·.call.asksForKey) ≤ 1) ∧
    ∀ request : Request τ,
      (∀ r, request.reply? con (m, w) = some r → ∃ calls,
        request.reply? con.journaled (besideCalls [] (m, w)) =
          some (withState (besideCalls calls) r) ∧ Settles request.heeds calls r) ∧
      ∀ m' v, request.Passes con.journaled (besideCalls [] (m, w)) m' v →
        ∀ e ∈ v.calls, e.failure = none := by
  have states : Beside SameConsole (m, w) (besideCalls [] (m, w)) := ⟨rfl, w.noted_sameConsole []⟩
  refine ⟨?_, fun request => ⟨fun r hr => ?_, fun m' v passes => ?_⟩⟩
  · obtain ⟨new, journaled, -, oneKey⟩ := step_calls con m (w.noted [])
    rw [Cancellable.calls_noted, List.nil_append] at journaled
    have same := Cancellable.eq_withState_noted Error.Matches.eq
      (step_parallel (Console.journaled_mirrors con) _ _ states)
    rw [journaled] at same
    refine ⟨new, same, ?_⟩
    have keys := oneKey.keys
    rw [List.countP_map] at keys
    exact keys
  · have same := request.reply?_parallel con states
    rw [hr] at same
    generalize hr' : request.reply? con.journaled _ = reply at same
    cases same with
    | some matched =>
      obtain ⟨new, journaled, settles⟩ := request.reply?_settles hr'
      rw [Cancellable.calls_noted, List.nil_append] at journaled
      have same := Cancellable.eq_withState_noted Error.Matches.eq matched
      rw [journaled] at same
      subst same
      exact ⟨new, rfl, settles.of_withState⟩
  · obtain ⟨new, journaled, unfailed⟩ := passes.unfailed
    rw [Cancellable.calls_noted, List.nil_append] at journaled
    rw [journaled]
    exact unfailed

end Machine

end LittleComputer
