import Tricolor.Cnf.Dimacs
import Tricolor.Formula.Basic
import Tricolor.Text.Blank
import Tricolor.Text.Lines
import Tricolor.Text.Numeral

/-!
# DIMACS text of a formula

The writer prints every clause on a line. The reader is more tolerant: a
clause may span lines, blank lines and comments are skipped, a line that
starts with `%` ends the input, the header may stand anywhere or be
missing, and the last clause may lack its 0. It reads line by line and
stops at the first fault, so what follows is never looked at. A formula
that it returns is valid.
-/

namespace Tricolor

namespace Formula

/-- The DIMACS text of a formula, valid or not. -/
def toDimacs (f : Formula) : String :=
  Dimacs.header f.numVars.toNat f.clauses.length ++
    String.join (f.clauses.map fun c => Dimacs.clauseLine (c.literals.map Int32.toInt))

/-- What a line holds, as its words show. -/
inductive LineKind where
  /-- A blank line or a comment. -/
  | skipped
  /-- The line that ends the input. -/
  | stop
  | header (tokens : List (List Char))
  | literals (tokens : List (List Char))

/-- The kind of a line is told by its first character that is no
blank. -/
def LineKind.ofLine (line : List Char) : LineKind :=
  let tokens := Text.words line
  match tokens with
  | [] => .skipped
  | token :: _ =>
    match token.head? with
    | some 'c' => .skipped
    | some '%' => .stop
    | some 'p' => .header tokens
    | _ => .literals tokens

/-- The number of variables that a header declares. The number of
clauses is read and not used. -/
def readHeader : List (List Char) → Except ParseFault UInt32
  | [['p'], ['c', 'n', 'f'], vars, count] =>
    match Text.Numeral.below? UInt32.size vars with
    | none => .error (.badVariableCount (String.ofList vars))
    | some n =>
      match Text.Numeral.below? UInt64.size count with
      | none => .error (.badClauseCount (String.ofList count))
      | some _ => .ok (UInt32.ofNat n)
  | _ => .error .malformedHeader

/-- What a reader has gathered so far. -/
structure Reader where
  /-- The declared number of variables, once there is a header. -/
  declared : Option UInt32
  /-- The clauses that have ended. -/
  clauses : Array Clause
  /-- The literals of the clause that is still open. -/
  pending : Array Literal

namespace Reader

/-- A reader before the first line. -/
def start : Reader := ⟨none, #[], #[]⟩

/-- Ends the open clause, which must have three literals. -/
def closeClause (r : Reader) : Except ParseFault Reader :=
  match Clause.ofList? r.pending.toList with
  | some c => .ok { r with clauses := r.clauses.push c, pending := #[] }
  | none => .error (.clauseWidth r.pending.size)

/-- Takes a literal into the open clause; a zero ends the clause. -/
def takeToken (r : Reader) (token : List Char) : Except ParseFault Reader :=
  match Text.Numeral.int32? token with
  | none => .error (.badLiteral (String.ofList token))
  | some x => if x = 0 then r.closeClause else .ok { r with pending := r.pending.push x }

/-- Takes the header, which may come only once. -/
def takeHeader (r : Reader) (tokens : List (List Char)) : Except ParseFault Reader :=
  if r.declared.isSome then .error .duplicateHeader
  else (readHeader tokens).map fun n => { r with declared := some n }

/-- The largest variable of the clauses, 0 if there is none. -/
def largestVar (clauses : List Clause) : Nat :=
  clauses.foldl (fun m c => c.literals.foldl (fun m x => max m x.var) m) 0

/-- The formula read, with the declared number of variables or else the
largest variable. -/
def formula (r : Reader) : Formula :=
  let clauses := r.clauses.toList
  ⟨r.declared.getD (UInt32.ofNat (largestVar clauses)), clauses⟩

/-- Ends the input after line `n`: a clause left open is closed, and the
formula has to be valid. -/
def finish (r : Reader) (n : Nat) : Except Error Formula := do
  let r ← if r.pending.isEmpty then .ok r else r.closeClause.mapError (.parse n)
  let f := r.formula
  f.validate
  return f

/-- Reads the remaining lines after line `n`. A line that cannot be
decoded is given as `none`. -/
def readLines (r : Reader) (n : Nat) : List (Option (List Char)) → Except Error Formula
  | [] => r.finish n
  | none :: _ => .error (.parse (n + 1) .notUtf8)
  | some line :: rest =>
    match LineKind.ofLine line with
    | .skipped => r.readLines (n + 1) rest
    | .stop => r.finish (n + 1)
    | .header tokens =>
      match r.takeHeader tokens with
      | .ok r => r.readLines (n + 1) rest
      | .error fault => .error (.parse (n + 1) fault)
    | .literals tokens =>
      match tokens.foldlM takeToken r with
      | .ok r => r.readLines (n + 1) rest
      | .error fault => .error (.parse (n + 1) fault)

end Reader

/-- Reads a formula from DIMACS text. -/
def ofDimacs (text : String) : Except Error Formula :=
  Reader.start.readLines 0 ((Text.textLines text.toList).map some)

/-- Reads a formula from the bytes of a DIMACS file. -/
def ofDimacsBytes (bytes : List UInt8) : Except Error Formula :=
  Reader.start.readLines 0 ((Text.byteLines bytes).map Text.decode?)

end Formula

end Tricolor
