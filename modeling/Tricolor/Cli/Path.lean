/-!
# Paths

A path is a start, the components between its slashes, and whether a
slash ends it. Each component leads from one location to the next: `.`
stays, `..` goes up, and a name goes down. Whether there is anything at a
location is not said here.
-/

namespace Tricolor

namespace Cli

/-- Why a path does not lead where it should. -/
inductive PathFault where
  /-- Nothing is there. -/
  | missing
  /-- A file stands where a directory is needed. -/
  | notDirectory
  /-- A directory stands where a file is needed. -/
  | isDirectory
  /-- The path, or a name in it, has too many bytes. -/
  | tooLong
  deriving DecidableEq, Repr

namespace PathFault

/-- The reason that the system gives. -/
def message : PathFault → String
  | missing => "No such file or directory (os error 2)"
  | notDirectory => "Not a directory (os error 20)"
  | isDirectory => "Is a directory (os error 21)"
  | tooLong => "File name too long (os error 36)"

end PathFault

/-- A directory that locations are given from. -/
inductive Base where
  /-- The root of all directories. -/
  | root
  /-- The directory that many levels above the working directory. -/
  | above (levels : Nat)
  deriving DecidableEq, Repr

/-- A place in the tree of directories: the names that lead down to it. -/
structure Location where
  base : Base
  names : List String
  deriving DecidableEq, Repr

namespace Location

/-- The root of all directories. -/
def root : Location := ⟨.root, []⟩

/-- The working directory. -/
def working : Location := ⟨.above 0, []⟩

/-- The place of a name in a directory. -/
def child (l : Location) (name : String) : Location := ⟨l.base, l.names ++ [name]⟩

/-- The directory that a place is in. The root is in itself. -/
def parent : Location → Location
  | ⟨.root, []⟩ => root
  | ⟨.above levels, []⟩ => ⟨.above (levels + 1), []⟩
  | ⟨base, names⟩ => ⟨base, names.dropLast⟩

/-- Whether another place is below this one. -/
def isAbove (l other : Location) : Bool :=
  l.base == other.base && l.names.length < other.names.length &&
    l.names.isPrefixOf other.names

/-- The most bytes that a name may have. -/
def nameLimit : Nat := 255

/-- Where a component of a path leads from a directory. -/
def next (l : Location) (component : String) : Except PathFault Location :=
  if component == "." then .ok l
  else if component == ".." then .ok l.parent
  else if component.utf8ByteSize ≤ nameLimit then .ok (l.child component)
  else .error .tooLong

/-- The parent of a child is the directory again. -/
theorem parent_child (l : Location) (name : String) : (l.child name).parent = l := by
  obtain ⟨base, names⟩ := l
  cases names with
  | nil => simp [child, parent]
  | cons first rest =>
    have h : ((first :: rest) ++ [name]).dropLast = first :: rest := List.dropLast_concat
    simpa [child, parent] using h

end Location

/-- A path, taken apart. -/
structure Path where
  start : Location
  components : List String
  /-- Whether the path ends in a slash, and so asks for a directory. -/
  slashed : Bool
  deriving DecidableEq, Repr

namespace Path

/-- A path has fewer bytes than this. -/
def sizeLimit : Nat := 4096

/-- Takes a path apart. Slashes in a row count as one, and the empty path
leads nowhere. -/
def ofString (path : String) : Except PathFault Path :=
  if path == "" then .error .missing
  else if sizeLimit ≤ path.utf8ByteSize then .error .tooLong
  else
    let chars := path.toList
    .ok {
      start := if chars.head? == some '/' then .root else .working
      components := ((chars.splitOn '/').map String.ofList).filter (· != "")
      slashed := chars.getLast? == some '/' }

end Path

end Cli

end Tricolor
