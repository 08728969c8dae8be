import LittleComputer.Console.Script
import LittleComputer.Proofs.Machine.ConsoleCalls
import LittleComputer.Proofs.Registers

/-! What a service routine does to the machine and to its console. Its calls are those of its
script, up to the first that fails, and of the machine it changes at most R0 and the flags. -/
namespace LittleComputer
open Console (Call Entry Journaled Plays)
variable {σ κ α : Type}

namespace Trap

/-- A routine comes to receive `key`: it has read it and, if it is one that shows keys, shown it. -/
def Receives (con : Console σ) (c : σ) (key : Byte) (v : TrapVector) : Prop :=
  ∃ c₁, Reads con c key c₁ v ∧ (v = .prompt → ∃ c₂, con.writeByte key c₁ = .ok () c₂)

theorem Receives.unique {con : Console σ} {c : σ} {key key' : Byte} {v : TrapVector}
    (h : Receives con c key v) (h' : Receives con c key' v) : key' = key := by
  obtain ⟨c₁, reads, -⟩ := h
  obtain ⟨c₂, reads', -⟩ := h'
  cases v with
  | getc | prompt =>
    cases reads.symm.trans reads'
    rfl
  | out | puts | putsp | halt => exact reads.elim

private theorem calling_stays (x : EStateM Console.Error σ α) (rs : Registers) :
    Stays (fun s => s.1 = rs) (calling x) := by
  rintro ⟨rs', c⟩ rfl
  rw [calling]
  cases x c <;> rfl

private theorem closing_stays (x : EStateM Console.Error σ Unit) (o : Outcome) (rs : Registers) :
    Stays (fun s => s.1 = rs) (do calling x; return o) :=
  (calling_stays x rs).bind fun _ => .pure o

/-- A routine that receives a key leaves it in R0, and any other routine, or one that fails before,
leaves the registers alone. -/
theorem regs_left (con : Console σ) (mem : Memory) (v : TrapVector) (rs : Registers) (c : σ) :
    (∃ key, Receives con c key v ∧
      (stateLeft (run con mem v (rs, c))).1 = rs.setFlagged .r0 key.toUInt16) ∨
    ((∀ key, ¬ Receives con c key v) ∧ (stateLeft (run con mem v (rs, c))).1 = rs) := by
  cases v with
  | getc =>
    cases read : con.readKey c with
    | error e c₁ =>
      refine .inr ⟨?_, ?_⟩
      · rintro key ⟨c', reads, -⟩
        cases read.symm.trans reads
      · rw [run, bind_of_error (calling_of_error read rs), stateLeft]
    | ok key c₁ =>
      refine .inl ⟨key, ⟨c₁, read, TrapVector.noConfusion⟩, ?_⟩
      rw [run, bind_of_ok (calling_of_ok read rs), receive_bind]
      exact closing_stays _ _ _ _ rfl
  | prompt =>
    rw [run_prompt]
    cases asked : asking con c with
    | error e c₁ =>
      refine .inr ⟨?_, ?_⟩
      · rintro key ⟨c', reads, -⟩
        cases asked.symm.trans reads
      · rw [bind_of_error (calling_of_error asked rs), stateLeft]
    | ok key c₁ =>
      rw [bind_of_ok (calling_of_ok asked rs)]
      cases shown : con.writeByte key c₁ with
      | error e c₂ =>
        refine .inr ⟨?_, ?_⟩
        · rintro key' ⟨c', reads, showed⟩
          cases asked.symm.trans reads
          obtain ⟨c₂, showed⟩ := showed rfl
          cases shown.symm.trans showed
        · rw [bind_of_error (calling_of_error shown rs), stateLeft]
      | ok _ c₂ =>
        refine .inl ⟨key, ⟨c₁, asked, fun _ => ⟨c₂, shown⟩⟩, ?_⟩
        rw [bind_of_ok (calling_of_ok shown rs), receive_bind]
        exact closing_stays _ _ _ _ rfl
  | out | puts | putsp =>
    refine .inr ⟨?_, ?_⟩
    · rintro key ⟨c', reads, -⟩
      exact reads
    · rw [run, get_bind]
      exact (calling_stays _ rs).bind (fun _ => closing_stays _ _ rs) _ rfl
  | halt =>
    refine .inr ⟨?_, ?_⟩
    · rintro key ⟨c', reads, -⟩
      exact reads
    · exact (calling_stays _ rs).bind (fun _ => closing_stays _ _ rs) _ rfl

/-- No routine looks at the keyboard's registers or lets the device look around. -/
theorem unasked_of_mem_script {mem : Memory} {r0 : Word} {key : Byte} {v : TrapVector} {call : Call}
    (h : call ∈ script mem r0 key v) : call ≠ .pollKey ∧ call ≠ .pump := by
  cases v <;> rw [script] at h <;> grind

theorem Reads.mirrored {E : Console.Error → Console.Error → Prop} {τ : Type} {R : σ → τ → Prop}
    {con : Console σ} {con' : Console τ} (mirrors : con.Mirrors E R con') {c c' : σ} {d : τ}
    (states : R c d) {key : Byte} {v : TrapVector} (h : Reads con c key c' v) :
    ∃ d', Reads con' d key d' v := by
  have asked : Parallel E R (asking con) (asking con') :=
    .bind (mirrors.writeBytes _) fun _ => .bind mirrors.flush fun _ => mirrors.readKey
  cases v with
  | getc =>
    obtain ⟨d', reads, -⟩ := mirrors.readKey.of_ok states h
    exact ⟨d', reads⟩
  | prompt =>
    obtain ⟨d', reads, -⟩ := asked.of_ok states h
    exact ⟨d', reads⟩
  | out | puts | putsp | halt => exact h.elim

end Trap

namespace Machine

/-- A service changes nothing of the machine but its registers. -/
theorem serve_eq (con : Console σ) (v : TrapVector) (m : Machine) (c : σ) :
    serve con v (m, c) =
      withState (fun s => ({ m with regs := s.1 }, s.2)) (Trap.run con m.mem v (m.regs, c)) := by
  rw [serve]
  cases Trap.run con m.mem v (m.regs, c) <;> rfl

/-- A service makes the calls of its script, up to the first that fails. -/
theorem serve_plays (con : Console (Cancellable κ)) (v : TrapVector) (m : Machine)
    (w : Cancellable κ) : ∃ key calls, (∀ k w', Trap.Reads con w k w' v → k = key) ∧
      serve con.journaled v (besideCalls [] (m, w)) =
        withState (besideCalls calls) (serve con v (m, w)) ∧
      Plays (Trap.script m.mem (m.regs.get .r0) key v) calls (failure? (serve con v (m, w))) := by
  have mirrors := Console.journaled_mirrors con
  have states : Cancellable.SameConsole w (w.noted []) := w.noted_sameConsole []
  obtain ⟨key, given, new, journaled, plays⟩ := Trap.run_follows con m.mem v m.regs (w.noted [])
  have same := Cancellable.eq_withState_noted Eq.symm
    (serve_parallel mirrors v (m, w) (m, w.noted []) ⟨rfl, states⟩)
  have noted : (stateLeft (serve con.journaled v (m, w.noted []))).2.calls = new := by
    rw [serve_eq, stateLeft_withState]
    exact journaled
  rw [noted] at same
  refine ⟨key, new, ?_, same, ?_⟩
  · intro k w' reads
    obtain ⟨w'', reads'⟩ := reads.mirrored mirrors states
    exact given k w'' reads'
  · rw [← failure?_withState (besideCalls new), ← same, serve_eq, failure?_withState]
    exact plays

/-- What a service leaves of the machine `m`. Only R0 and the flags tell that it has received a
key. -/
structure LeftByService (con : Console σ) (v : TrapVector) (m : Machine) (c : σ) (m' : Machine) :
    Prop where
  received : ∀ key, Trap.Receives con c key v →
    m'.regs.get .r0 = key.toUInt16 ∧ m'.regs.cond = Flag.ofWord key.toUInt16
  unreceived : (∀ key, ¬ Trap.Receives con c key v) →
    m'.regs.get .r0 = m.regs.get .r0 ∧ m'.regs.cond = m.regs.cond
  others : ∀ q, q ≠ .r0 → m'.regs.get q = m.regs.get q
  pc : m'.regs.pc = m.regs.pc
  memory : m'.mem = m.mem
  state : m'.state = m.state
  cycles : m'.cycles = m.cycles

theorem leftByService (con : Console σ) (v : TrapVector) (m : Machine) (c : σ) :
    LeftByService con v m c (stateLeft (serve con v (m, c))).1 := by
  rw [serve_eq, stateLeft_withState]
  rcases Trap.regs_left con m.mem v m.regs c with ⟨key, receives, left⟩ | ⟨none, left⟩
  · rw [left]
    exact {
      received := fun key' receives' => by
        rw [receives.unique receives']
        simp
      unreceived := fun none => absurd receives (none key)
      others := fun q hq => by simp [Registers.get_set_of_ne hq]
      pc := rfl
      memory := rfl
      state := rfl
      cycles := rfl }
  · rw [left]
    exact {
      received := fun key receives => absurd receives (none key)
      unreceived := fun _ => ⟨rfl, rfl⟩
      others := fun _ _ => rfl
      pc := rfl
      memory := rfl
      state := rfl
      cycles := rfl }

/-- A service that comes to its end halts the machine or lets it go on. -/
theorem outcome_of_serve {con : Console σ} {v : TrapVector} {s : Machine × σ} :
    (∃ s', serve con v s = .ok (if v = .halt then .halt else .resume) s') ↔
      ∃ o s', serve con v s = .ok o s' := by
  constructor
  · rintro ⟨s', served⟩
    exact ⟨_, s', served⟩
  · rintro ⟨o, ⟨m', c'⟩, served⟩
    obtain ⟨regs, ran, -⟩ := serve_eq_ok.1 served
    rw [← Trap.outcome_eq ran]
    exact ⟨_, served⟩

/-- How a service has ended by the calls that it has made of its script `lines`. -/
structure EndsAsCalled (v : TrapVector) (lines : List Console.Call) (calls : List Entry)
    (r : EStateM.Result Console.Error (Machine × σ) Trap.Outcome) : Prop where
  plays : Plays lines calls (failure? r)
  completed : (∃ s, r = .ok (if v = .halt then .halt else .resume) s) ↔
    calls = lines.map fun call => ⟨call, none⟩
  failed : ∀ e, (∃ s, r = .error e s) ↔ ∃ entry ∈ calls, entry.failure = some e
  unasked : ∀ entry ∈ calls, entry.call ≠ .pollKey ∧ entry.call ≠ .pump

/-- Every service follows its script and stops at the first call that fails. It is completed exactly
if no call fails, and else it fails as that call does. R0 and the flags change exactly if a key has
been read and, where it is to be shown, shown. -/
theorem serve_follows_script (con : Console (Cancellable κ)) (v : TrapVector) (m : Machine)
    (w : Cancellable κ) : ∃ key calls, (∀ k w', Trap.Reads con w k w' v → k = key) ∧
      serve con.journaled v (besideCalls [] (m, w)) =
        withState (besideCalls calls) (serve con v (m, w)) ∧
      EndsAsCalled v (Trap.script m.mem (m.regs.get .r0) key v) calls (serve con v (m, w)) ∧
      LeftByService con v m w (stateLeft (serve con v (m, w))).1 := by
  obtain ⟨key, calls, read, journaled, plays⟩ := serve_plays con v m w
  refine ⟨key, calls, read, journaled, ?_, leftByService con v m w⟩
  exact {
    plays
    completed := (outcome_of_serve.trans failure?_eq_none.symm).trans plays.completed_iff
    failed := fun _ => failure?_eq_some.symm.trans plays.failed_iff
    unasked := fun _ mem =>
      Trap.unasked_of_mem_script (plays.isPrefix.subset (List.mem_map_of_mem mem)) }

/-- The third byte of the notice fails, and nothing is written or flushed after it. -/
example :
    let e : Console.Error := ⟨.brokenPipe, "Broken pipe"⟩
    let s : Console.Script := { write := [{}, {}, { outcome := .error e }] }
    (stateLeft (serve Console.Script.console.journaled .halt
      (besideCalls [] (initial, ⟨s, false⟩)))).2.calls =
        [⟨.writeByte 0x48, none⟩, ⟨.writeByte 0x41, none⟩, ⟨.writeByte 0x4C, some e⟩] := rfl

end Machine

end LittleComputer
