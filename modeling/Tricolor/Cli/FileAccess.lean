/-!
# Access to files

The commands read and write files through this interface, so that they
can be run on any store of files. Reasons for a failure are those that
the system gives.
-/

namespace Tricolor

namespace Cli

/-- What becomes of an attempt to read a file. -/
inductive ReadResult where
  | bytes (content : List UInt8)
  /-- The file cannot be opened. -/
  | closed (reason : String)
  /-- The file is open but cannot be read. -/
  | unreadable (reason : String)

/-- A monad with files. -/
class FileAccess (m : Type → Type) where
  read : String → m ReadResult
  /-- Replaces the content of a file. -/
  write : String → String → m (Except String Unit)

end Cli

end Tricolor
