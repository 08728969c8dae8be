import LittleComputer.Proofs.Machine.LifeCycle
import LittleComputer.Proofs.Machine.Loops
import LittleComputer.Proofs.Machine.WatchedRun

/-! Budgets. A limit only says where a run pauses: going on to a higher limit from there is as
good as not having paused, so budgets add up, as far as the count allows. -/
namespace LittleComputer.Machine
variable {σ : Type} {con : Console σ} {limit limit' : UInt64} {s s' : Machine × σ} {e : Error}

/-- A count below a limit has room for one more. -/
theorem toNat_add_one_of_lt {count : UInt64} (h : count < limit) :
    (count + 1).toNat = count.toNat + 1 := by
  have hl := limit.toNat_lt
  rw [UInt64.lt_iff_toNat_lt] at h
  rw [UInt64.toNat_add, UInt64.toNat_one, Nat.mod_eq_of_lt (by omega)]

/-- So has a count that does not start over. -/
theorem toNat_add_one_of_ne {count : UInt64} (h : count + 1 ≠ 0) :
    (count + 1).toNat = count.toNat + 1 := by
  have hc := count.toNat_lt
  have h0 : (count + 1).toNat ≠ 0 := fun e => h (UInt64.toNat_inj.1 e)
  rw [UInt64.toNat_add, UInt64.toNat_one] at h0 ⊢
  omega

/-- A run that does not fail ends with the machine or at its limit. -/
theorem runTo_eq_ok (start : s.1.cycles ≤ limit) (h : runTo con limit s = .ok () s') :
    s.1.cycles ≤ s'.1.cycles ∧ s'.1.cycles ≤ limit ∧
      (s'.1.state = .running → s'.1.cycles = limit) := by
  fun_induction runTo con limit s with
  | case1 s go i s₁ hs ih =>
    have hc := cycles_of_step hs
    have count := toNat_add_one_of_lt go.2
    have below := UInt64.lt_iff_toNat_lt.1 go.2
    rw [← hc] at count
    obtain ⟨hle, rest⟩ := ih (by rw [UInt64.le_iff_toNat_le]; omega) h
    rw [UInt64.le_iff_toNat_le] at hle
    exact ⟨by rw [UInt64.le_iff_toNat_le]; omega, rest⟩
  | case2 => cases h
  | case3 s stop =>
    cases h
    refine ⟨UInt64.le_refl _, start, fun running => UInt64.le_antisymm start ?_⟩
    exact UInt64.not_lt.1 fun below => stop ⟨(isRunning_iff _).2 running, below⟩

/-- A pause at a lower limit makes no difference. -/
theorem runTo_of_runTo (h : limit ≤ limit') (first : runTo con limit s = .ok () s') :
    runTo con limit' s = runTo con limit' s' := by
  fun_induction runTo con limit s with
  | case1 s go i s₁ hs ih =>
    rw [runTo_of_step ((isRunning_iff _).1 go.1) (UInt64.lt_of_lt_of_le go.2 h) hs]
    exact ih first
  | case2 => cases first
  | case3 =>
    cases first
    rfl

theorem runTo_of_runTo_error (h : limit ≤ limit') (first : runTo con limit s = .error e s') :
    runTo con limit' s = .error e s' := by
  fun_induction runTo con limit s with
  | case1 s go i s₁ hs ih =>
    rw [runTo_of_step ((isRunning_iff _).1 go.1) (UInt64.lt_of_lt_of_le go.2 h) hs]
    exact ih first
  | case2 s go e₁ s₁ hs =>
    rw [runTo_of_step_error ((isRunning_iff _).1 go.1) (UInt64.lt_of_lt_of_le go.2 h) hs]
    exact first
  | case3 => cases first

namespace Loop

/-- A loop that goes on below a limit does so below a higher one. -/
private theorem next?_below {m : Machine} {c : σ} {t : Unit} {next : σ × Unit}
    (h : limit ≤ limit') (low : (below con limit).next? m c t = some next) :
    (below con limit').next? m c t = some next := by
  simp only [below, Option.ite_none_right_eq_some] at low ⊢
  exact ⟨⟨low.1.1, UInt64.lt_of_lt_of_le low.1.2 h⟩, low.2⟩

/-- What is done on the way to a limit is done first on the way to a higher one. -/
theorem Trace.isPrefix {m m₁ m₂ : Machine} {c : σ} {t : Unit} {evs evs' : List Event}
    (h : limit ≤ limit') (low : (Loop.below con limit).Trace m c t evs m₁ true)
    (high : (Loop.below con limit').Trace m c t evs' m₂ true) : evs <+: evs' := by
  generalize hr : true = returned at low
  induction low generalizing evs' with
  | here => cases hr
  | left => exact List.nil_prefix
  | failed next hs =>
    have next' := next?_below h next
    cases high with
    | left stop => cases stop.symm.trans next'
    | failed next₁ hs₁ =>
      cases next₁.symm.trans next'
      cases hs₁.symm.trans hs
      exact List.prefix_refl _
    | done next₁ hs₁ =>
      cases next₁.symm.trans next'
      cases hs₁.symm.trans hs
  | done next hs _ ih =>
    have next' := next?_below h next
    cases high with
    | left stop => cases stop.symm.trans next'
    | failed next₁ hs₁ =>
      cases next₁.symm.trans next'
      cases hs₁.symm.trans hs
    | done next₁ hs₁ rest =>
      cases next₁.symm.trans next'
      cases hs₁.symm.trans hs
      exact List.cons_prefix_cons.2 ⟨rfl, ih rest hr⟩

end Loop

theorem le_limitFrom (start budget : UInt64) : start ≤ limitFrom start budget := by
  have hs := start.toNat_lt
  have size : UInt64.size = 2 ^ 64 := rfl
  rw [UInt64.le_iff_toNat_le, limitFrom_toNat]
  omega

theorem limitFrom_mono {start small large : UInt64} (h : small ≤ large) :
    limitFrom start small ≤ limitFrom start large := by
  rw [UInt64.le_iff_toNat_le] at h ⊢
  rw [limitFrom_toNat, limitFrom_toNat]
  omega

/-- No budget takes a run past the largest count, and the largest budget takes it there. -/
theorem limitFrom_largest (start : UInt64) :
    limitFrom start (UInt64.ofNat (UInt64.size - 1)) = UInt64.ofNat (UInt64.size - 1) := by
  have size : UInt64.size = 2 ^ 64 := rfl
  have largest : (UInt64.ofNat (UInt64.size - 1)).toNat = UInt64.size - 1 := rfl
  apply UInt64.toNat_inj.1
  rw [limitFrom_toNat, largest]
  omega

/-- The sum of two budgets, which stops at the largest number. -/
def budgetSum (a b : UInt64) : UInt64 := UInt64.ofNat (min (a.toNat + b.toNat) (UInt64.size - 1))

theorem budgetSum_toNat (a b : UInt64) :
    (budgetSum a b).toNat = min (a.toNat + b.toNat) (UInt64.size - 1) := by
  have size : UInt64.size = 2 ^ 64 := rfl
  exact UInt64.toNat_ofNat_of_lt' (by omega)

theorem budgetSum_sub {a b : UInt64} (h : a ≤ b) : budgetSum a (b - a) = b := by
  have size : UInt64.size = 2 ^ 64 := rfl
  have hb := b.toNat_lt
  apply UInt64.toNat_inj.1
  rw [budgetSum_toNat, UInt64.toNat_sub_of_le _ _ h]
  rw [UInt64.le_iff_toNat_le] at h
  omega

/-- Adding to a limit is the same as adding to the budget. -/
theorem limitFrom_limitFrom (start a b : UInt64) :
    limitFrom (limitFrom start a) b = limitFrom start (budgetSum a b) := by
  have size : UInt64.size = 2 ^ 64 := rfl
  have hs := start.toNat_lt
  apply UInt64.toNat_inj.1
  rw [limitFrom_toNat, limitFrom_toNat, limitFrom_toNat, budgetSum_toNat]
  omega

/-- What is left of a budget leads to the limit that the whole led to. -/
theorem limitFrom_rest {start count budget : UInt64} (h : start ≤ count)
    (within : count ≤ limitFrom start budget) :
    limitFrom count (budget - (count - start)) = limitFrom start budget := by
  have hc := count.toNat_lt
  have spent := UInt64.toNat_sub_of_le _ _ h
  rw [UInt64.le_iff_toNat_le] at h
  have reached : limitFrom start (count - start) = count := by
    have size : UInt64.size = 2 ^ 64 := rfl
    apply UInt64.toNat_inj.1
    rw [limitFrom_toNat]
    omega
  have enough : count - start ≤ budget := by
    rw [UInt64.le_iff_toNat_le, limitFrom_toNat] at within
    rw [UInt64.le_iff_toNat_le]
    omega
  calc limitFrom count (budget - (count - start))
      = limitFrom (limitFrom start (count - start)) (budget - (count - start)) := by rw [reached]
    _ = limitFrom start budget := by rw [limitFrom_limitFrom, budgetSum_sub enough]

/-- The second of two runs ends where a run to the limit of both ends. -/
theorem runTo_limitFrom_of_runTo {a : UInt64} (b : UInt64)
    (first : runTo con (limitFrom s.1.cycles a) s = .ok () s') :
    runTo con (limitFrom s'.1.cycles b) s' =
      runTo con (limitFrom s.1.cycles (budgetSum a b)) s' := by
  obtain ⟨-, -, paused⟩ := runTo_eq_ok (le_limitFrom _ _) first
  by_cases running : s'.1.state = .running
  · rw [paused running, limitFrom_limitFrom]
  · rw [runTo_of_stopped con _ running, runTo_of_stopped con _ running]

/-- The count of a limited run is what the machine's own count has grown by. -/
theorem toNat_cycles_of_runLimited {budget n : UInt64} (h : runLimited con budget s = .ok n s') :
    s'.1.cycles.toNat = s.1.cycles.toNat + n.toNat := by
  rw [runLimited_eq, counted_eq_ok] at h
  obtain ⟨hr, rfl⟩ := h
  obtain ⟨grows, -⟩ := runTo_eq_ok (le_limitFrom _ _) hr
  rw [UInt64.toNat_sub_of_le _ _ grows]
  rw [UInt64.le_iff_toNat_le] at grows
  omega

private theorem runLimited_bind (con : Console σ) (a b : UInt64) (s : Machine × σ) :
    (do
        let x ← runLimited con a
        let y ← runLimited con b
        return x + y) s = runLimited con (budgetSum a b) s := by
  have le : limitFrom s.1.cycles a ≤ limitFrom s.1.cycles (budgetSum a b) := by
    rw [← limitFrom_limitFrom]
    exact le_limitFrom _ _
  simp only [Bind.bind, EStateM.bind, runLimited_eq]
  cases first : runTo con (limitFrom s.1.cycles a) s with
  | error e s₁ =>
    rw [runTo_of_runTo_error le first]
    rfl
  | ok u s₁ =>
    have whole := (runTo_of_runTo le first).trans (runTo_limitFrom_of_runTo b first).symm
    simp only [counted, whole]
    cases runTo con (limitFrom s₁.1.cycles b) s₁ with
    | error e s₂ => rfl
    | ok u s₂ =>
      have counts : s₁.1.cycles - s.1.cycles + (s₂.1.cycles - s₁.1.cycles) =
          s₂.1.cycles - s.1.cycles := by grind
      exact congrArg (fun n => EStateM.Result.ok n s₂) counts

/-- Two limited runs one after the other are one run with the sum of their budgets, and their
counts add up without overflow. So a run begins with all that a run with a smaller budget does. -/
theorem runLimited_add (con : Console σ) (a b : UInt64) :
    (do
        let x ← runLimited con a
        let y ← runLimited con b
        return x + y) = runLimited con (budgetSum a b) ∧
      (∀ s s₁ s₂ x y, runLimited con a s = .ok x s₁ → runLimited con b s₁ = .ok y s₂ →
        (x + y).toNat = x.toNat + y.toNat) ∧
      (a ≤ b →
        (runLimited con b = do
          let x ← runLimited con a
          let y ← runLimited con (b - a)
          return x + y) ∧
        ∀ m c evs evs' m₁ m₂, (Call.runLimited con a c).Trace m evs m₁ true →
          (Call.runLimited con b c).Trace m evs' m₂ true → evs <+: evs') := by
  refine ⟨funext (runLimited_bind con a b), ?_, fun smaller => ⟨?_, ?_⟩⟩
  · intro s s₁ s₂ x y first second
    have hx := toNat_cycles_of_runLimited first
    have hy := toNat_cycles_of_runLimited second
    have hs := s₂.1.cycles.toNat_lt
    rw [UInt64.toNat_add, Nat.mod_eq_of_lt (by omega)]
  · rw [funext (runLimited_bind con a (b - a)), budgetSum_sub smaller]
  · intro m c evs evs' m₁ m₂ low high
    exact Loop.Trace.isPrefix (limitFrom_mono smaller) low high

end LittleComputer.Machine
