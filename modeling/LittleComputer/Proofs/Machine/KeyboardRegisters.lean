import LittleComputer.Proofs.Machine.Accesses
import LittleComputer.Proofs.Machine.ConditionCode

/-! The keyboard's registers over the life of a machine. The data register holds what was last put
there, be it a key that came with a read of the status or a value that the program has stored, and
the status is never read but with the answer of its own poll. -/
namespace LittleComputer.Machine
variable {σ : Type}

/-- The value that an access puts into the data register: a key that has come with a read of the
status, or what is stored there. -/
def Access.data? (con : Console σ) : Access σ → Option Word
  | .obtained a _ before _ =>
    if a = keyStatus then
      match con.pollKey before with
      | .ok (some key) _ => some key.toUInt16
      | .ok none _ | .error _ _ => none
    else none
  | .stored a v => if a = keyData then some v else none

/-- Only these accesses may change a register of the keyboard. -/
def Access.Changes : Access σ → Prop
  | .obtained a _ _ _ => a = keyStatus
  | .stored a _ => a = keyStatus ∨ a = keyData

/-- What an attempt puts into the data register. -/
def Attempt.data (a : Attempt) (m : Machine) : List Word :=
  (accesses a.console m a.state).filterMap (Access.data? a.console)

/-- What attempts one after another put into the data register. -/
def dataHistory : List Attempt → Machine → List Word
  | [], _ => []
  | a :: later, m => a.data m ++ dataHistory later (a.after m)

section
variable {con : Console σ} {m : Machine} {c : σ}

theorem peek_data_effect (con : Console σ) (mem : Memory) (access : Access σ) :
    (access.effect con mem).peek keyData = (access.data? con).getD (mem.peek keyData) := by
  cases access with
  | obtained a w before after =>
    simp only [Access.effect, Access.data?]
    split
    · cases con.pollKey before with
      | error e after => rfl
      | ok key after => cases key <;> exact Memory.peek_latch_data mem _
    · rfl
  | stored a v =>
    simp only [Access.effect, Access.data?, Memory.peek_set]
    split <;> rfl

/-- After a number of accesses the data register holds what was last put there. -/
theorem peek_data_foldl (con : Console σ) (log : List (Access σ)) (mem : Memory) :
    (log.foldl (Access.effect con) mem).peek keyData =
      (log.filterMap (Access.data? con)).getLastD (mem.peek keyData) := by
  induction log generalizing mem with
  | nil => rfl
  | cons access log ih =>
    rw [List.foldl_cons, ih, peek_data_effect]
    cases h : access.data? con with
    | none => rw [List.filterMap_cons_none h]; rfl
    | some v => rw [List.filterMap_cons_some h, List.getLastD_cons]; rfl

theorem data_of_attempt (a : Attempt) (m : Machine) :
    (a.after m).mem.peek keyData = (a.data m).getLastD (m.mem.peek keyData) := by
  rw [Attempt.after, mem_of_step, peek_data_foldl]
  rfl

theorem data_of_attempts (attempts : List Attempt) (m : Machine) :
    (afterAll attempts m).mem.peek keyData =
      (dataHistory attempts m).getLastD (m.mem.peek keyData) := by
  induction attempts generalizing m with
  | nil => rfl
  | cons a attempts ih =>
    rw [afterAll, List.foldl_cons]
    refine (ih (a.after m)).trans ?_
    rw [data_of_attempt, dataHistory]
    simp only [List.getLastD_eq_getLast?, List.getLast?_append, Option.getD_or]

/-- Accesses that change no register of the keyboard leave both as they are. -/
theorem keyboard_of_unchanged {log : List (Access σ)} (quiet : ∀ access ∈ log, ¬ access.Changes)
    (mem : Memory) : (log.foldl (Access.effect con) mem).peek keyStatus = mem.peek keyStatus ∧
      (log.foldl (Access.effect con) mem).peek keyData = mem.peek keyData := by
  induction log generalizing mem with
  | nil => exact ⟨rfl, rfl⟩
  | cons access log ih =>
    obtain ⟨now, later⟩ := List.forall_mem_cons.1 quiet
    obtain ⟨status, data⟩ := ih later (access.effect con mem)
    rw [List.foldl_cons, status, data]
    cases access with
    | obtained a w before after =>
      rw [Access.Changes] at now
      rw [Access.effect, if_neg now]
      exact ⟨rfl, rfl⟩
    | stored a v =>
      obtain ⟨hs, hd⟩ := not_or.1 now
      rw [Access.effect, Memory.peek_set, if_neg hs, Memory.peek_set, if_neg hd]
      exact ⟨rfl, rfl⟩

private theorem read_or_mem {a b w : Word} {before after : σ} {s : Memory × σ}
    {next : Word → Memory × σ → List (Access σ)}
    (h : .obtained a w before after ∈ obtaining con b s next) :
    (∃ mem mem', Memory.read con a (mem, before) = .ok w (mem', after)) ∨
      ∃ v s', .obtained a w before after ∈ next v s' := by
  obtain ⟨mem, c⟩ := s
  rw [obtaining] at h
  split at h
  next v s' read =>
    obtain ⟨mem', c'⟩ := s'
    rcases List.mem_cons.1 h with same | h
    · cases same
      exact .inl ⟨mem, mem', read⟩
    · exact .inr ⟨v, _, h⟩
  next => cases h

/-- Every word that a step obtains has been read. -/
theorem read_of_obtained {a w : Word} {before after : σ}
    (h : .obtained a w before after ∈ accesses con m c) :
    ∃ mem mem', Memory.read con a (mem, before) = .ok w (mem', after) := by
  rw [accesses] at h
  split at h
  next running =>
    rcases read_or_mem h with read | ⟨v, s, h⟩
    · exact read
    · split at h
      next i hd =>
        cases i with
        | add | and | not | lea | br | jmp | jsr | jsrr | trap => cases h
        | st | str => simp [executing] at h
        | ld | ldr | sti =>
          rcases read_or_mem h with read | ⟨v', s', h⟩
          · exact read
          · simp at h
        | ldi =>
          rcases read_or_mem h with read | ⟨v', s', h⟩
          · exact read
          · rcases read_or_mem h with read | ⟨v'', s'', h⟩
            · exact read
            · cases h
      next => cases h
  next => cases h

/-- A word obtained from the status is the answer of the poll that was made for it. -/
theorem status_of_obtained {w : Word} {before after : σ}
    (h : .obtained keyStatus w before after ∈ accesses con m c) :
    ∃ key, con.pollKey before = .ok key after ∧ w = Memory.statusOf key := by
  obtain ⟨mem, mem', read⟩ := read_of_obtained h
  rcases Memory.read_eq_ok read with ⟨elsewhere, -⟩ | ⟨-, key, polled, answer, -⟩
  · exact absurd rfl elsewhere
  · exact ⟨key, polled, answer⟩

/-- A trap has no access but its fetch, and that is not from the status. -/
theorem mem_of_trap {v : TrapVector} {c₁ : σ} (h : Fetches con m c (.trap v) c₁) :
    (leaves (step con (m, c))).mem = m.mem := by
  obtain ⟨w, mem, read, hd⟩ := h
  rcases Memory.read_eq_ok read with ⟨elsewhere, -, rfl, -⟩ | ⟨-, key, -, rfl, -⟩
  · rw [mem_of_step, accesses]
    split
    · simp only [obtaining, read, hd, executing, List.foldl_cons, List.foldl_nil]
      exact effect_obtained read
    · rfl
  · cases (decode_status_eq_ok hd).2

/-- How a step deals with the keyboard's registers. -/
structure KeyboardStep (con : Console σ) (m : Machine) (c : σ) : Prop where
  answered : ∀ word before after, .obtained keyStatus word before after ∈ accesses con m c →
    ∃ key, con.pollKey before = .ok key after ∧
      (word = 0x8000 ↔ key ≠ none) ∧ (word = 0 ↔ key = none)
  unchanged : (∀ access ∈ accesses con m c, ¬ access.Changes) →
    (leaves (step con (m, c))).mem.peek 0xFE00 = m.mem.peek 0xFE00 ∧
      (leaves (step con (m, c))).mem.peek 0xFE02 = m.mem.peek 0xFE02
  trap : ∀ v c₁, Fetches con m c (.trap v) c₁ → (leaves (step con (m, c))).mem = m.mem
  failed : ∀ e m' c', step con (m, c) = .error (.console e) (m', c') → m'.mem = m.mem
  /-- The accesses account for all that is done to memory. -/
  memory : (leaves (step con (m, c))).mem = (accesses con m c).foldl (Access.effect con) m.mem
  /-- They begin with the fetch of what is executed. -/
  fetched : ∀ i m' c', step con (m, c) = .ok i (m', c') → ∃ w c₁,
    (accesses con m c).head? = some (.obtained m.regs.pc w c c₁) ∧ Instruction.decode w = .ok i
  /-- And they end with the word that a load has put into its register. -/
  loaded : ∀ i m' c' r, step con (m, c) = .ok i (m', c') → loaded? i = some r →
    ∃ a before after,
      (accesses con m c).getLast? = some (.obtained a (m'.regs.get r) before after)

theorem keyboardStep (con : Console σ) (m : Machine) (c : σ) : KeyboardStep con m c where
  answered word before after obtained := by
    obtain ⟨key, polled, rfl⟩ := status_of_obtained obtained
    refine ⟨key, polled, ?_⟩
    cases key with
    | none => exact ⟨by simp [Memory.statusOf], by simp [Memory.statusOf]⟩
    | some key => exact ⟨by simp [Memory.statusOf, keyReady], by simp [Memory.statusOf, keyReady]⟩
  unchanged quiet := by
    rw [mem_of_step]
    exact keyboard_of_unchanged quiet m.mem
  trap _ _ fetches := mem_of_trap fetches
  failed _ _ _ h := (step_eq_error h).footprint.memory
  memory := mem_of_step con m c
  fetched i m' c' h := by
    obtain ⟨w, mem, c₁, m₁, hd, log, -, -⟩ := accesses_of_step h
    exact ⟨w, c₁, by rw [log, List.head?_cons], hd⟩
  loaded i m' c' r h loads := by
    obtain ⟨w, mem, c₁, m₁, -, log, executes, regs⟩ := accesses_of_step h
    obtain ⟨a, before, after, last⟩ := executes.loaded loads
    refine ⟨a, before, after, ?_⟩
    rw [log, List.getLast?_cons, last, regs]
    rfl

end

private theorem data_loaded (images : List Image) :
    (images.foldl loadImage initial).mem.peek keyData = 0 := by
  have clear (i : Image) : keyData.toNat ∉ i.range := by
    intro covered
    have covers := (Image.covers_iff i.origin i.words.length keyData).2 covered
    rw [i.clearOfData] at covers
    cases covers
  rw [peek_loadImages_of_notMem fun i _ => clear i]
  exact Memory.peek_empty keyData

/-- After any attempts on a machine that was switched on and loaded with images, the data register
holds the last key that came with a read of the status or the last value stored there, whichever was
later, or zero if there was neither. A word read from the status tells whether that very read has
brought a key, and neither register changes otherwise. -/
theorem keyboard_of_attempts (images : List Image) (attempts : List Attempt) :
    let loaded := images.foldl loadImage initial
    let m := afterAll attempts loaded
    m.mem.peek 0xFE02 = (dataHistory attempts loaded).getLastD 0 ∧
      ∀ {σ : Type} (con : Console σ) (c : σ), KeyboardStep con m c := by
  intro loaded m
  have data := data_of_attempts attempts loaded
  rw [data_loaded] at data
  exact ⟨data, fun con c => keyboardStep con m c⟩

end LittleComputer.Machine
