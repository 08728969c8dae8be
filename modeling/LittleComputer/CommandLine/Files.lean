import LittleComputer.Word

/-! Files, as far as the command uses them. What is behind a path is left open: the command reads a
whole file, or puts bytes in the place of one, and either may fail for any reason. -/
namespace LittleComputer.CommandLine

/-- Systems of files. `φ` is what all the files hold. A failure is told in the system's words. -/
class FileSystem (φ : Type) where
  /-- The bytes of the file that a path names. -/
  read : φ → String → Except String (List Byte)
  /-- Put bytes in the place of what a file holds, or into a new file. If that fails something may
  have been written. -/
  write : String → List Byte → EStateM String φ Unit

end LittleComputer.CommandLine
