import Tricolor.Cli.Run

/-!
# The program

Runs a command on the files of the system. Failures and hints on usage go
to the standard error.
-/

namespace Tricolor

namespace Cli

/-- The reason that the system gives for a failed access. -/
def describe : IO.Error → String
  | .noFileOrDirectory _ code details => s!"{details} (os error {code})"
  | .permissionDenied _ code details => s!"{details} (os error {code})"
  | .inappropriateType _ code details => s!"{details} (os error {code})"
  | e => toString e

/-- Runs an access and catches its failure. -/
def attempt (access : IO α) : IO (Except IO.Error α) := do
  try
    return .ok (← access)
  catch e =>
    return .error e

instance : FileAccess IO where
  read path := do
    match ← attempt (IO.FS.Handle.mk path .read) with
    | .error e => return .closed (describe e)
    | .ok handle =>
      -- a directory can be opened, and only reading it fails
      match ← attempt handle.readBinToEnd with
      | .error e => return .unreadable (describe e)
      | .ok content => return .bytes content.toList
  write path content := do
    return (← attempt (IO.FS.writeFile path content)).mapError describe

/-- What is shown when the arguments are not those of a command, or when
help is asked for. -/
def usage : String :=
  "usage: reduce PATH [--dot FILE]\n" ++
  "       solve PATH [--strategy model|dsatur|sat|backtrack] [--dot FILE]\n" ++
  "       gen --vars N --clauses N [--seed N] [--planted] --emit FILE\n" ++
  "       graph-cnf PATH [--colors N] --emit FILE\n"

end Cli

end Tricolor

open Tricolor.Cli

/-- The entry point. -/
def main (args : List String) : IO UInt32 := do
  match Command.ofArguments args with
  | .error stop =>
    if stop = .help then IO.print usage else IO.eprint usage
    return UInt32.ofNat stop.code
  | .ok command =>
    let outcome ← (execute command : IO Outcome)
    IO.print outcome.stdout
    if let some failure := outcome.failure then IO.eprint failure.report
    return UInt32.ofNat outcome.code
