import LittleComputer.CommandLine.Session
import LittleComputer.Proofs.Json.Forms

/-! The text of a dumped state. It is JSON with a field on each line, and it is read back as the
state. -/
namespace LittleComputer.CommandLine
open Json JsonForm

def flagText : Flag → String
  | .pos => "Pos"
  | .zro => "Zro"
  | .neg => "Neg"

def runStateText : Machine.State → String
  | .running => "Running"
  | .halted => "Halted"
  | .faulted => "Faulted"

/-- The text of a machine's state. -/
def stateText (m : Machine) : String :=
  "\x7b\n  \"registers\": \x7b\n    \"gpr\": [\n      " ++
    ",\n      ".intercalate (m.regs.gpr.toList.map fun w => w.toNat.repr) ++
    "\n    ],\n    \"pc\": " ++ m.regs.pc.toNat.repr ++
    ",\n    \"cond\": \"" ++ flagText m.regs.cond ++
    "\"\n  \x7d,\n  \"state\": \"" ++ runStateText m.state ++
    "\",\n  \"cycles\": " ++ m.cycles.toNat.repr ++ "\n\x7d"

/-- A text without escapes is written between quotes as it is. -/
private theorem quoteOnto_eq {s : String}
    (plain : s.toList.map escape = s.toList.map String.singleton) (out : String) :
    quoteOnto out s = out ++ "\"" ++ s ++ "\"" := by
  have quoted (cs : List Char) (plain : cs.map escape = cs.map String.singleton) (out : String) :
      (cs.foldl (fun out c => out ++ escape c) out).toList = out.toList ++ cs := by
    induction cs generalizing out with
    | nil => simp
    | cons c cs ih =>
      obtain ⟨first, rest⟩ := List.cons_eq_cons.1 plain
      rw [List.foldl_cons, ih rest, first]
      simp
  apply String.toList_inj.1
  simp [quoteOnto, quoted _ plain]

/-- Numbers are written between separators. -/
private theorem printItems_nats (l : Layout) (depth : Nat) (out : String) (n : Nat)
    (ns : List Nat) : printItems l depth (out ++ n.repr) (ns.map .nat) =
      out ++ ("," ++ l.lead depth).intercalate ((n :: ns).map Nat.repr) := by
  induction ns generalizing out n with
  | nil => simp [printItems]
  | cons k ns ih =>
    rw [List.map_cons, printItems, printOnto, ih]
    simp [String.append_assoc]

private theorem printOnto_words (l : Layout) (depth : Nat) (out : String) {words : List Word}
    {separator : String} (some_words : words ≠ [])
    (separated : "," ++ l.lead (depth + 1) = separator) :
    printOnto l depth out (.arr (words.map toJson)) =
      out ++ "[" ++ l.lead (depth + 1) ++
        separator.intercalate (words.map fun w => w.toNat.repr) ++ l.lead depth ++ "]" := by
  cases words with
  | nil => exact absurd rfl some_words
  | cons w words =>
    have written : (w :: words).map toJson = .nat w.toNat :: (words.map (·.toNat)).map .nat := by
      rw [List.map_map]
      rfl
    rw [written, printOnto, printOnto, printItems_nats, separated, List.map_cons, List.map_cons,
      List.map_map]
    rfl

private theorem toJson_snapshot (m : Machine) : toJson m.snapshot =
    .obj [("registers", .obj [("gpr", .arr (m.regs.gpr.toList.map toJson)),
        ("pc", .nat m.regs.pc.toNat), ("cond", .str (flagText m.regs.cond))]),
      ("state", .str (runStateText m.state)), ("cycles", .nat m.cycles.toNat)] := by
  have flag : toJson m.regs.cond = .str (flagText m.regs.cond) := by cases m.regs.cond <;> rfl
  have state : toJson m.state = .str (runStateText m.state) := by cases m.state <;> rfl
  rw [← flag, ← state]
  rfl

private theorem plain_flagText (f : Flag) :
    (flagText f).toList.map escape = (flagText f).toList.map String.singleton := by
  cases f <;> rfl

private theorem plain_runStateText (st : Machine.State) :
    (runStateText st).toList.map escape = (runStateText st).toList.map String.singleton := by
  cases st <;> rfl

theorem dumpText_eq (m : Machine) : dumpText m = stateText m := by
  have general : m.regs.gpr.toList ≠ [] := by
    intro none
    have count := congrArg List.length none
    simp at count
  have comma : "," ++ Layout.pretty.lead (0 + 1 + 1 + 1) = ",\n      " := rfl
  have outer : Layout.pretty.lead 0 = "\n" := rfl
  have field : Layout.pretty.lead (0 + 1) = "\n  " := rfl
  have register : Layout.pretty.lead (0 + 1 + 1) = "\n    " := rfl
  have word : Layout.pretty.lead (0 + 1 + 1 + 1) = "\n      " := rfl
  have afterColon : Layout.pretty.afterColon = " " := rfl
  rw [dumpText, toJson_snapshot]
  simp only [pretty, print, printOnto, printFields, printOnto_words _ _ _ general comma,
    quoteOnto_eq (plain_flagText _), quoteOnto_eq (plain_runStateText _), outer, field, register,
    word, afterColon]
  rw [quoteOnto_eq (by rfl), quoteOnto_eq (by rfl), quoteOnto_eq (by rfl),
    quoteOnto_eq (by rfl), quoteOnto_eq (by rfl), quoteOnto_eq (by rfl)]
  unfold stateText
  generalize ",\n      ".intercalate _ = words
  -- The same characters, in smaller and larger pieces.
  apply String.toList_inj.1
  simp

theorem readText?_stateText (m : Machine) :
    readText? Snapshot (stateText m) = some ⟨m.regs, m.state, m.cycles⟩ := by
  rw [← dumpText_eq]
  exact stored_snapshot.readText? (fun _ _ => rfl) m.snapshot Layout.pretty_blank

end LittleComputer.CommandLine
