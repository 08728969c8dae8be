import LittleComputer.CommandLine.Files

/-! A system of files: a directory with files and directories below it, and nothing outside. Paths
are followed a name at a time from the directory. -/
namespace LittleComputer.CommandLine

/-- Why a file cannot be opened. -/
inductive FileError where
  | notFound
  | notADirectory
  | isADirectory
  | nameTooLong
deriving DecidableEq

def FileError.message : FileError → String
  | .notFound => "No such file or directory (os error 2)"
  | .notADirectory => "Not a directory (os error 20)"
  | .isADirectory => "Is a directory (os error 21)"
  | .nameTooLong => "File name too long (os error 36)"

inductive Entry where
  | file (bytes : List Byte)
  | directory

/-- What is in the directory, each thing under the names that lead to it. -/
structure Directory where
  entries : List (List String × Entry) := []

namespace Directory

/-- Where a path leads: to the directory itself or an entry below it, to a name that is free in
a directory, or to a directory outside. -/
inductive Place where
  | found (names : List String) (e : Entry)
  | free (names : List String)
  | outside

def lookup? (d : Directory) (names : List String) : Option Entry :=
  if names.isEmpty then some .directory else d.entries.lookup names

/-- The parts of a path, between its slashes. -/
def pathParts (path : String) : List String := (path.toList.splitOn '/').map String.ofList

/-- How many bytes of UTF-8 a name in a directory has at most. -/
def longestName : Nat := 255

/-- How many bytes of UTF-8 a path has at most. -/
def longestPath : Nat := 4095

/-- Follow the parts of a path from the place reached. An empty part and a dot stay there, two
dots go back. A name is too long only when it is looked for in a directory, so what comes before it
counts first. Nothing is known of a directory outside but that others enclose it. -/
def follow (d : Directory) : Place → List String → Except FileError Place
  | p, [] => .ok p
  | .found _ (.file _), _ => .error .notADirectory
  | .found names .directory, part :: rest =>
    if part = "" ∨ part = "." then d.follow (.found names .directory) rest
    else if part = ".." then
      d.follow (if names.isEmpty then .outside else .found names.dropLast .directory) rest
    else if longestName < part.utf8ByteSize then .error .nameTooLong
    else
      let names := names ++ [part]
      match d.lookup? names with
      | some e => d.follow (.found names e) rest
      | none => d.follow (.free names) rest
  | .free names, parts =>
    if parts.all (· = "") then .ok (.free names) else .error .notFound
  | .outside, parts =>
    match parts.find? (· ∉ ["", ".", ".."]) with
    | none => .ok .outside
    | some name => .error (if longestName < name.utf8ByteSize then .nameTooLong else .notFound)

/-- Follow the parts of a path, from the outside if the path starts with a slash. A path that is
too long is not followed at all. -/
def followFrom (d : Directory) (path : String) (parts : List String) : Except FileError Place :=
  if longestPath < path.utf8ByteSize then .error .nameTooLong
  else d.follow (if path.startsWith '/' then .outside else .found [] .directory) parts

def resolve (d : Directory) (path : String) : Except FileError Place :=
  d.followFrom path (pathParts path)

/-- The parts that come before the last part of a path, slashes at its end not counted. -/
def enclosingParts (path : String) : List String :=
  (((pathParts path).reverse.dropWhile (· = "")).drop 1).reverse

def read (d : Directory) (path : String) : Except FileError (List Byte) := do
  match ← d.resolve path with
  | .found _ (.file bytes) => return bytes
  | .found _ .directory | .outside => throw .isADirectory
  | .free _ => throw .notFound

/-- Put bytes in the place of a file, or into a new file. A path with a slash at its end asks for
a directory, whatever its last part names, so only what encloses that part is looked at. -/
def write (d : Directory) (path : String) (bytes : List Byte) : Except FileError Directory := do
  if path.endsWith '/' then
    match ← d.followFrom path (enclosingParts path) with
    | .found _ (.file _) => throw .notADirectory
    | .free _ => throw .notFound
    | .found _ .directory | .outside => throw .isADirectory
  else
    match ← d.resolve path with
    | .found names (.file _) =>
      return ⟨d.entries.map fun (n, e) => if n = names then (n, .file bytes) else (n, e)⟩
    | .found _ .directory | .outside => throw .isADirectory
    | .free names => return ⟨d.entries ++ [(names, .file bytes)]⟩

/-- A write that is refused leaves the directory as it is. -/
instance : FileSystem Directory where
  read d path := (d.read path).mapError FileError.message
  write path bytes := fun d =>
    match d.write path bytes with
    | .ok d => .ok () d
    | .error e => .error e.message d

/-- Put an entry where there is none, given by its path from the directory. -/
def add (d : Directory) (path : String) (e : Entry) : Directory :=
  ⟨d.entries ++ [((pathParts path).filter (· ≠ ""), e)]⟩

end Directory

end LittleComputer.CommandLine
