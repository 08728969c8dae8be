import LittleComputer.CommandLine.Options

/-! What asking for a listing does to the other arguments. They are read as before, as long as none
of them asks for it again. -/
namespace LittleComputer.CommandLine.Options

/-- The same options with a listing. -/
def traced (o : Options) : Options := { o with trace := true }

private theorem read_bind_eq_ok {α β : Type} {x : Except Stop α} {f : α → Except Stop β} {b : β} :
    (x >>= f) = .ok b ↔ ∃ a, x = .ok a ∧ f a = .ok b := by
  cases x <;> simp [bind, Except.bind]

section
variable {o o' : Options} {waiting : Option Valued} (untraced : o'.trace = false)
include untraced

private theorem addImage_traced {path : String} (h : o.addImage path = .ok o') :
    o.trace = false ∧ o.traced.addImage path = .ok o'.traced := by
  rw [addImage] at h
  split at h
  next => cases h
  next named =>
    cases h
    exact ⟨untraced, if_neg named⟩

private theorem setTrace_ne_ok : o.setTrace ≠ .ok o' := by
  intro h
  rw [setTrace] at h
  split at h
  next => cases h
  next =>
    cases h
    cases untraced

private theorem setValue_traced {option : Valued} {value : String}
    (h : o.setValue option value = .ok o') :
    o.trace = false ∧ o.traced.setValue option value = .ok o'.traced := by
  cases option with
  | maxCycles =>
    rw [setValue] at h
    split at h
    next n unset counted =>
      cases h
      exact ⟨untraced, by simp only [setValue, traced, unset, counted]⟩
    next => cases h
  | dumpState =>
    rw [setValue] at h
    split at h
    next => cases h
    next unset =>
      cases h
      exact ⟨untraced, if_neg unset⟩

omit untraced in
/-- The same for what is read without waiting for a value. -/
private theorem unwaiting_traced (read : Options → Except Stop Options)
    (reads : read o = .ok o' → o.trace = false ∧ read o.traced = .ok o'.traced)
    (h : (do return (← read o, none)) = Except.ok (o', waiting)) :
    o.trace = false ∧ (do return (← read o.traced, none)) = Except.ok (o'.traced, waiting) := by
  obtain ⟨o₁, done, same⟩ := read_bind_eq_ok.1 h
  cases same
  obtain ⟨before, done'⟩ := reads done
  exact ⟨before, read_bind_eq_ok.2 ⟨_, done', rfl⟩⟩

private theorem readLetters_traced {cs : List Char} (h : o.readLetters cs = .ok (o', waiting)) :
    o.trace = false ∧ o.traced.readLetters cs = .ok (o'.traced, waiting) := by
  fun_induction readLetters o cs with
  | case1 o | case3 o =>
    cases h
    exact ⟨untraced, rfl⟩
  | case2 o cs ih =>
    obtain ⟨o₁, set, rest⟩ := read_bind_eq_ok.1 h
    exact absurd set (setTrace_ne_ok (ih o₁ rest).1)
  | case4 o cs => exact unwaiting_traced (setValue · _ _) (setValue_traced untraced) h
  | case5 o cs more unequal =>
    rw [readLetters]
    · exact unwaiting_traced (setValue · _ _) (setValue_traced untraced) h
    · exact more
    · exact unequal
  | case6 | case7 | case8 => cases h

private theorem readWord_traced {cs : List Char} (h : o.readWord cs = .ok (o', waiting)) :
    o.trace = false ∧ o.traced.readWord cs = .ok (o'.traced, waiting) := by
  simp only [readWord] at h ⊢
  split at h
  case h_1 | h_3 =>
    cases h
    exact ⟨untraced, rfl⟩
  case h_2 | h_4 => exact unwaiting_traced (setValue · _ _) (setValue_traced untraced) h
  case h_5 =>
    obtain ⟨o₁, set, same⟩ := read_bind_eq_ok.1 h
    cases same
    exact absurd set (setTrace_ne_ok untraced)
  case h_6 | h_7 | h_8 => cases h

private theorem readArgument_traced {arg : String} (h : o.readArgument arg = .ok (o', waiting)) :
    o.trace = false ∧ o.traced.readArgument arg = .ok (o'.traced, waiting) := by
  simp only [readArgument] at h ⊢
  split at h
  case h_1 => exact readWord_traced untraced h
  case h_2 | h_4 => exact unwaiting_traced (addImage · _) (addImage_traced untraced) h
  case h_3 => exact readLetters_traced untraced h

private theorem addImages_traced {paths : List String} (h : paths.foldlM addImage o = .ok o') :
    o.trace = false ∧ paths.foldlM addImage o.traced = .ok o'.traced := by
  induction paths generalizing o with
  | nil =>
    cases h
    exact ⟨untraced, rfl⟩
  | cons path paths ih =>
    rw [List.foldlM_cons] at h ⊢
    obtain ⟨o₁, first, rest⟩ := read_bind_eq_ok.1 h
    obtain ⟨untraced₁, rest'⟩ := ih rest
    obtain ⟨before, first'⟩ := addImage_traced untraced₁ first
    exact ⟨before, read_bind_eq_ok.2 ⟨_, first', rest'⟩⟩

omit untraced in
private theorem readAll_of_argument {arg : String} (dashes : arg = "--" → False)
    (h : o.readArgument arg = .ok (o', none)) (rest : List String) :
    o.readAll (arg :: rest) = o'.readAll rest := by
  rw [readAll.eq_def]
  simp only [h]

omit untraced in
private theorem readAll_of_waiting {o₁ : Options} {arg value : String} {option : Valued}
    (dashes : arg = "--" → False) (h : o.readArgument arg = .ok (o₁, some option))
    (plain : ¬ isOption value = true) (set : o₁.setValue option value = .ok o')
    (rest : List String) : o.readAll (arg :: value :: rest) = o'.readAll rest := by
  rw [readAll.eq_def]
  simp only [h, if_neg plain, set]

theorem readAll_traced {args : List String} (h : o.readAll args = .ok o') :
    o.trace = false ∧ o.traced.readAll args = .ok o'.traced := by
  fun_induction readAll o args with
  | case1 =>
    cases h
    exact ⟨untraced, rfl⟩
  | case2 o paths => exact addImages_traced untraced h
  | case4 o arg dashes o₁ rest read ih =>
    obtain ⟨untraced₁, rest'⟩ := ih h
    obtain ⟨before, read'⟩ := readArgument_traced untraced₁ read
    exact ⟨before, (readAll_of_argument dashes read' rest).trans rest'⟩
  | case8 o arg dashes o₁ option value rest read plain o₂ set ih =>
    obtain ⟨untraced₂, rest'⟩ := ih h
    obtain ⟨untraced₁, set'⟩ := setValue_traced untraced₂ set
    obtain ⟨before, read'⟩ := readArgument_traced untraced₁ read
    exact ⟨before, (readAll_of_waiting dashes read' plain set' rest).trans rest'⟩
  | case3 | case5 | case6 | case7 => cases h

end

/-- To ask for a listing first changes nothing but that there is one. -/
theorem ofArguments_trace {args : List String} {o : Options} (parsed : ofArguments args = .ok o)
    (untraced : o.trace = false) : ofArguments ("--trace" :: args) = .ok o.traced := by
  obtain ⟨o₁, read, named⟩ := read_bind_eq_ok.1 parsed
  have asked : readAll {} ("--trace" :: args) = readAll (traced {}) args :=
    readAll_of_argument (by decide) (by cbv) args
  split at named
  next => cases named
  next nonempty =>
    cases named
    exact read_bind_eq_ok.2 ⟨_, asked.trans (readAll_traced untraced read).2, if_neg nonempty⟩

end LittleComputer.CommandLine.Options
