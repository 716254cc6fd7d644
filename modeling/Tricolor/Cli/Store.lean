import Tricolor.Cli.FileAccess
import Tricolor.Cli.Path

/-!
# A store of files in memory

A store holds files at locations. A directory exists if some file is below
it; the working directory, those above it and the root always do, and hold
nothing but what is written there. A path is followed component by
component, and the first one that leads nowhere decides what is wrong.
-/

namespace Tricolor

namespace Cli

/-- Files, by their locations. -/
structure Store where
  files : List (Location × String)
  deriving Repr

namespace Store

/-- What is at a location. -/
inductive Entry where
  | file (content : String)
  | directory
  | vacant
  deriving DecidableEq, Repr

/-- Whether there is a directory at a location. -/
def hasDirectory (s : Store) (l : Location) : Bool :=
  l.names.isEmpty || s.files.any fun (place, _) => l.isAbove place

/-- What is at a location. -/
def entry (s : Store) (l : Location) : Entry :=
  if s.hasDirectory l then .directory
  else
    match s.files.lookup l with
    | some content => .file content
    | none => .vacant

/-- Replaces the content of a file, or adds a file. -/
def put (s : Store) (l : Location) (content : String) : Store :=
  ⟨(l, content) :: s.files.filter fun (place, _) => place != l⟩

/-- Follows a component that has to lead to a directory. -/
def enter (s : Store) (l : Location) (component : String) : Except PathFault Location := do
  let l ← l.next component
  match s.entry l with
  | .directory => return l
  | .file _ => throw .notDirectory
  | .vacant => throw .missing

/-- The directory that holds what a path names, reached through all
components but the last. -/
def holder (s : Store) (path : Path) : Except PathFault Location :=
  path.components.dropLast.foldlM s.enter path.start

/-- The location that a path leads to. -/
def locate (s : Store) (path : Path) : Except PathFault Location := do
  let l ← s.holder path
  match path.components.getLast? with
  | some component => l.next component
  | none => return l

/-- The content of the file that a path names. A slash at its end asks for
a directory. -/
def content (s : Store) (path : String) : Except PathFault String := do
  let path ← Path.ofString path
  match s.entry (← s.locate path) with
  | .file content => if path.slashed then throw .notDirectory else return content
  | .directory => throw .isDirectory
  | .vacant => throw .missing

/-- The content of the file that a path names, if there is one. -/
def content? (s : Store) (path : String) : Option String := (s.content path).toOption

/-- The store after writing to the file that a path names. No directory is
made, and a path that asks for one is refused whatever is there. -/
def write (s : Store) (path content : String) : Except PathFault Store := do
  let path ← Path.ofString path
  let _ ← s.holder path
  if path.slashed then throw .isDirectory
  let l ← s.locate path
  match s.entry l with
  | .directory => throw .isDirectory
  | _ => return s.put l content

/-- A store with the given files in the working directory, and the
directories that they need. -/
def ofList (files : List (String × String)) : Store :=
  ⟨files.filterMap fun (path, content) => do
    let path ← (Path.ofString path).toOption
    let l ← (path.components.foldlM Location.next path.start).toOption
    return (l, content)⟩

instance : FileAccess (StateM Store) where
  read path := do
    match (← get).content path with
    | .ok content => return .bytes content.toUTF8.toList
    -- a directory can be opened, and only reading it fails
    | .error .isDirectory => return .unreadable PathFault.isDirectory.message
    | .error fault => return .closed fault.message
  write path content := do
    match (← get).write path content with
    | .ok s => set s; return .ok ()
    | .error fault => return .error fault.message

end Store

end Cli

end Tricolor
