import Mathlib.Data.List.Basic
import LittleComputer.CommandLine.Directory

/-! What has been written is read back. A path that has led to a file, or to a name that was free,
leads to the file that has been written there. -/
namespace LittleComputer.CommandLine

/-- What has been written at a path is read back from it. There are files of which that is not true,
such as one that forgets what it is given. -/
def FileSystem.Keeps (φ : Type) [FileSystem φ] (path : String) : Prop :=
  ∀ bytes (files files' : φ), FileSystem.write path bytes files = .ok () files' →
    FileSystem.read files' path = .ok bytes

namespace Directory

/-- A text that ends in an empty part ends in the separator. -/
private theorem getLast?_of_splitOn {cs : List Char}
    (h : (cs.splitOn '/').tail.getLast? = some []) : cs.getLast? = some '/' := by
  induction cs with
  | nil => cases h
  | cons c cs ih =>
    rw [List.splitOn, List.splitOnP_cons_eq_if_modifyHead] at h
    change (if (c == '/') = true then [] :: cs.splitOn '/'
      else (cs.splitOn '/').modifyHead (List.cons c)).tail.getLast? = some [] at h
    have later (h : (cs.splitOn '/').tail.getLast? = some []) : (c :: cs).getLast? = some '/' := by
      rw [List.getLast?_cons, ih h, Option.getD_some]
    split at h
    next slash =>
      rw [List.tail_cons] at h
      cases parts : cs.splitOn '/' with
      | nil => exact absurd parts (List.splitOnP_ne_nil _ _)
      | cons part rest =>
        rw [parts] at h later
        cases rest with
        | nil =>
          have joined : ['/'].intercalate (cs.splitOn '/') = cs := List.intercalate_splitOn '/'
          rw [parts] at joined
          obtain rfl : part = [] := Option.some.inj h
          obtain rfl : [] = cs := joined
          rw [eq_of_beq slash]
          rfl
        | cons next rest => exact later h
    next =>
      rw [List.tail_modifyHead] at h
      exact later h

/-- The last of several parts of a path is empty only if a slash is at its end. -/
theorem getLast?_pathParts {path : String} (h : path.endsWith '/' = false) :
    (pathParts path).tail.getLast? ≠ some "" := by
  intro empty
  rw [pathParts, ← List.map_tail, List.getLast?_map] at empty
  obtain ⟨part, last, hp⟩ := Option.map_eq_some_iff.1 empty
  obtain rfl := String.ofList_eq_empty_iff.1 hp
  rw [String.endsWith_char_eq_getLast?, getLast?_of_splitOn last] at h
  cases h

/-- A path leads to these names: to a file there, or to nothing. -/
def Place.LeadsTo (names : List String) : Place → Prop
  | .found n (.file _) | .free n => n = names
  | .found _ .directory | .outside => False

variable {d d' : Directory} {names n parts : List String} {bytes : List Byte} {q : Place}

theorem follow_outside (h : d.follow .outside parts = .ok q) : q = .outside := by
  cases parts with
  | nil =>
    cases h
    rfl
  | cons part rest =>
    rw [follow] at h
    split at h
    · cases h
      rfl
    · cases h
    · exact nofun

theorem follow_free (h : d.follow (.free n) parts = .ok q) :
    q = .free n ∧ ∀ part ∈ parts, part = "" := by
  cases parts with
  | nil =>
    cases h
    exact ⟨rfl, List.forall_mem_nil _⟩
  | cons part rest =>
    rw [follow] at h
    split at h
    next empty =>
      cases h
      exact ⟨rfl, by simpa using empty⟩
    next => cases h
    · exact nofun

theorem follow_file (h : d.follow (.found n (.file bytes)) parts = .ok q) :
    parts = [] ∧ q = .found n (.file bytes) := by
  cases parts with
  | nil =>
    cases h
    exact ⟨rfl, rfl⟩
  | cons part rest => cases h

/-- What a part of a path means in a directory, whatever lies there. -/
inductive Turn where
  | go (names : List String)
  | leave
  | look (names : List String)
  | refuse

def Turn.of (n : List String) (part : String) : Turn :=
  if part = "" ∨ part = "." then .go n
  else if part = ".." then if n.isEmpty then .leave else .go n.dropLast
  else if longestName < part.utf8ByteSize then .refuse
  else .look (n ++ [part])

theorem follow_cons (d : Directory) (n : List String) (part : String) (rest : List String) :
    d.follow (.found n .directory) (part :: rest) =
      match Turn.of n part with
      | .go m => d.follow (.found m .directory) rest
      | .leave => d.follow .outside rest
      | .look k =>
        match d.lookup? k with
        | some e => d.follow (.found k e) rest
        | none => d.follow (.free k) rest
      | .refuse => .error .nameTooLong := by
  rw [follow, Turn.of]
  by_cases here : part = "" ∨ part = "."
  · rw [if_pos here, if_pos here]
  · rw [if_neg here, if_neg here]
    by_cases up : part = ".."
    · rw [if_pos up, if_pos up]
      split <;> rfl
    · rw [if_neg up, if_neg up]
      split <;> rfl

/-- Where a path leads there is what it has found. -/
theorem lookup?_of_follow (h : d.follow (.found n .directory) parts = .ok q)
    (leads : q.LeadsTo names) :
    (∃ old, q = .found names (.file old) ∧ d.lookup? names = some (.file old)) ∨
      q = .free names ∧ d.lookup? names = none := by
  induction parts generalizing n with
  | nil =>
    cases h
    exact leads.elim
  | cons part rest ih =>
    rw [follow_cons] at h
    cases turn : Turn.of n part with
    | refuse => simp [turn] at h
    | go m =>
      simp only [turn] at h
      exact ih h
    | leave =>
      simp only [turn] at h
      rw [follow_outside h] at leads
      exact leads.elim
    | look k =>
      simp only [turn] at h
      cases found : d.lookup? k with
      | none =>
        simp only [found] at h
        obtain ⟨rfl, -⟩ := follow_free h
        obtain rfl : k = names := leads
        exact .inr ⟨rfl, found⟩
      | some e =>
        simp only [found] at h
        cases e with
        | directory => exact ih h
        | file old =>
          obtain ⟨-, rfl⟩ := follow_file h
          obtain rfl : k = names := leads
          exact .inl ⟨old, rfl, found⟩

/-- One directory is another with a file written at a name. -/
structure Written (d : Directory) (names : List String) (bytes : List Byte) (d' : Directory) :
    Prop where
  here : d'.lookup? names = some (.file bytes)
  others : ∀ k, k ≠ names → d'.lookup? k = d.lookup? k
  /-- There was no directory before. -/
  plain : d.lookup? names ≠ some .directory

/-- Once a file has been written at a name, the path that led there leads to it. -/
theorem Written.follow (written : d.Written names bytes d')
    (h : d.follow (.found n .directory) parts = .ok q) (leads : q.LeadsTo names)
    (closed : parts.tail.getLast? ≠ some "") :
    d'.follow (.found n .directory) parts = .ok (.found names (.file bytes)) := by
  induction parts generalizing n with
  | nil =>
    cases h
    exact leads.elim
  | cons part rest ih =>
    have shorter : rest.tail.getLast? ≠ some "" := by
      cases rest with
      | nil => exact nofun
      | cons next rest =>
        intro empty
        apply closed
        rw [List.tail_cons] at empty ⊢
        rw [List.getLast?_cons, empty, Option.getD_some]
    rw [follow_cons] at h ⊢
    cases turn : Turn.of n part with
    | refuse => simp [turn] at h
    | go m =>
      simp only [turn] at h ⊢
      exact ih h shorter
    | leave =>
      simp only [turn] at h
      rw [follow_outside h] at leads
      exact leads.elim
    | look k =>
      simp only [turn] at h ⊢
      cases found : d.lookup? k with
      | none =>
        simp only [found] at h
        obtain ⟨rfl, empty⟩ := follow_free h
        obtain rfl : k = names := leads
        have last : rest = [] := by
          by_contra more
          apply closed
          rw [List.tail_cons, List.getLast?_eq_some_getLast more, empty _ (List.getLast_mem more)]
        rw [written.here, last]
        rfl
      | some e =>
        simp only [found] at h
        cases e with
        | directory =>
          have other : k ≠ names := by
            rintro rfl
            exact written.plain found
          rw [written.others k other, found]
          exact ih h shorter
        | file old =>
          obtain ⟨rfl, rfl⟩ := follow_file h
          obtain rfl : k = names := leads
          rw [written.here]
          rfl

private theorem ne_nil (plain : d.lookup? names ≠ some .directory) : names ≠ [] := by
  rintro rfl
  exact plain rfl

private theorem lookup?_eq_lookup (h : names ≠ []) (d : Directory) :
    d.lookup? names = d.entries.lookup names := by
  rw [lookup?, if_neg (by simpa using h)]

private theorem written_of_append (h : d.lookup? names = none) :
    d.Written names bytes ⟨d.entries ++ [(names, .file bytes)]⟩ := by
  have plain : d.lookup? names ≠ some .directory := by
    rw [h]
    exact nofun
  have named := ne_nil plain
  rw [lookup?_eq_lookup named] at h
  refine ⟨?_, fun k other => ?_, plain⟩
  · rw [lookup?_eq_lookup named, List.lookup_append, h]
    simp
  · simp [lookup?, List.lookup_append, List.lookup_cons, beq_eq_false_iff_ne.2 other]

private theorem lookup_map (entries : List (List String × Entry)) (k : List String) :
    (entries.map fun (n, e) => if n = names then (n, .file bytes) else (n, e)).lookup k =
      (entries.lookup k).map fun e => if k = names then .file bytes else e := by
  induction entries with
  | nil => rfl
  | cons entry entries ih =>
    obtain ⟨n, e⟩ := entry
    have head : (if n = names then (n, .file bytes) else (n, e)) =
        (n, if n = names then .file bytes else e) := by
      split <;> rfl
    simp only [List.map_cons, head, List.lookup_cons, ih]
    by_cases same : k = n
    · rw [same, beq_self_eq_true]
      rfl
    · rw [beq_eq_false_iff_ne.2 same]

private theorem written_of_map {old : List Byte} (h : d.lookup? names = some (.file old)) :
    d.Written names bytes
      ⟨d.entries.map fun (n, e) => if n = names then (n, .file bytes) else (n, e)⟩ := by
  have plain : d.lookup? names ≠ some .directory := by
    rw [h]
    exact nofun
  have named := ne_nil plain
  rw [lookup?_eq_lookup named] at h
  refine ⟨?_, fun k other => ?_, plain⟩
  · rw [lookup?_eq_lookup named, lookup_map, h]
    simp
  · simp only [lookup?, lookup_map, if_neg other, Option.map_id']

/-- Only from the inside a path leads to a name. -/
private theorem follow_of_resolve {path : String} (h : d.resolve path = .ok q)
    (leads : q.LeadsTo names) : path.utf8ByteSize ≤ longestPath ∧ path.startsWith '/' = false ∧
      d.follow (.found [] .directory) (pathParts path) = .ok q := by
  rw [resolve, followFrom] at h
  split at h
  next => cases h
  next short =>
    split at h
    next =>
      rw [follow_outside h] at leads
      exact leads.elim
    next inside => exact ⟨Nat.not_lt.1 short, by simpa using inside, h⟩

/-- What can be written goes to a file that is there or to a new one. -/
theorem write_eq_ok {path : String} (h : d.write path bytes = .ok d') :
    path.endsWith '/' = false ∧ ∃ q names, d.resolve path = .ok q ∧ q.LeadsTo names ∧
      d.Written names bytes d' := by
  rw [write] at h
  split at h
  next =>
    -- A path with a slash at its end is refused, wherever it leads.
    cases hp : d.followFrom path (enclosingParts path) with
    | error e => simp [hp, bind, Except.bind] at h
    | ok p =>
      simp only [hp, bind, Except.bind] at h
      split at h <;> cases h
  next closed =>
    refine ⟨by simpa using closed, ?_⟩
    cases hp : d.resolve path with
    | error e => simp [hp, bind, Except.bind] at h
    | ok p =>
      simp only [hp, bind, Except.bind] at h
      cases p with
      | outside => cases h
      | free names =>
        cases h
        obtain ⟨-, -, led⟩ := follow_of_resolve hp rfl
        rcases lookup?_of_follow led rfl with ⟨old, elsewhere, -⟩ | ⟨-, free⟩
        · cases elsewhere
        · exact ⟨_, names, rfl, rfl, written_of_append free⟩
      | found names e =>
        cases e with
        | directory => cases h
        | file old =>
          cases h
          obtain ⟨-, -, led⟩ := follow_of_resolve hp rfl
          rcases lookup?_of_follow led rfl with ⟨_, -, there⟩ | ⟨elsewhere, -⟩
          · exact ⟨_, names, rfl, rfl, written_of_map there⟩
          · cases elsewhere

/-- What has been written is read back. -/
theorem read_of_write {path : String} (h : d.write path bytes = .ok d') :
    d'.read path = .ok bytes := by
  obtain ⟨closed, q, names, found, leads, written⟩ := write_eq_ok h
  obtain ⟨short, inside, led⟩ := follow_of_resolve found leads
  have there : d'.resolve path = .ok (.found names (.file bytes)) := by
    rw [resolve, followFrom, if_neg (Nat.not_lt.2 short), if_neg (by simpa using inside)]
    exact written.follow led leads (getLast?_pathParts closed)
  rw [read, there]
  rfl

theorem write_of_eq_ok {path : String} (h : d.write path bytes = .ok d') :
    FileSystem.write path bytes d = .ok () d' := by
  simp only [FileSystem.write, h]

theorem read_of_eq_ok {path : String} (h : d.read path = .ok bytes) :
    FileSystem.read d path = .ok bytes := by
  simp only [FileSystem.read, h, Except.mapError]

/-- In a directory every path keeps what is written. -/
theorem keeps (path : String) : FileSystem.Keeps Directory path := by
  intro bytes d d' h
  simp only [FileSystem.write] at h
  split at h
  next written =>
    cases h
    exact read_of_eq_ok (read_of_write written)
  next => cases h

end Directory

end LittleComputer.CommandLine
