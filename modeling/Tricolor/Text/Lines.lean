/-!
# Lines

A line ends with a line feed, and one carriage return before the line
feed belongs to the end. What follows the last line feed is a line only
if it is not empty. The split works on any kind of symbol, so that bytes
can be cut into lines before they are decoded.
-/

namespace Tricolor

namespace Text

/-- Drops one carriage return from the end of a line. -/
def dropReturn [BEq β] (cr : β) (line : List β) : List β :=
  if line.getLast? == some cr then line.dropLast else line

/-- The lines of a sequence, without their ends. -/
def lines [BEq β] (lf cr : β) (xs : List β) : List (List β) :=
  let pieces := xs.splitOn lf
  pieces.dropLast.map (dropReturn cr) ++ (pieces.getLast?.filter (!·.isEmpty)).toList

/-- The lines of a text. -/
def textLines (cs : List Char) : List (List Char) :=
  lines '\n' '\r' cs

/-- The lines of a sequence of bytes, still encoded. -/
def byteLines (bytes : List UInt8) : List (List UInt8) :=
  lines 10 13 bytes

/-- The characters that bytes encode in UTF-8, if they encode any. -/
def decode? (bytes : List UInt8) : Option (List Char) :=
  (String.fromUTF8? ⟨bytes.toArray⟩).map String.toList

end Text

end Tricolor
