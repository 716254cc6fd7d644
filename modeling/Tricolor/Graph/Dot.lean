import Tricolor.Coloring.Basic

/-!
# Graphs as DOT text

A node is a line with its label in quotes, and a colored node has a fill
color. An edge is a line with two labels. Inside a label, backslashes and
quotes are escaped by a backslash, so labels of any text stay apart.
-/

namespace Tricolor

namespace Dot

/-- What stands for a character inside a quoted label. -/
def escapeChar : Char → List Char
  | '\\' => ['\\', '\\']
  | '"' => ['\\', '"']
  | c => [c]

/-- A label in quotes. -/
def quoted (label : String) : String :=
  "\"" ++ String.ofList (label.toList.flatMap escapeChar) ++ "\""

/-- The fill of a color: its name if it has one, and black otherwise. -/
def fill (color : Color) : String :=
  if color.index ≤ Color.grey.index then color.name else "black"

/-- The line of a node. -/
def nodeLine (label : String) : Option Color → String
  | some color => "  " ++ quoted label ++ " [style=filled, fillcolor=\"" ++ fill color ++ "\"];\n"
  | none => "  " ++ quoted label ++ ";\n"

/-- The line of an edge. -/
def edgeLine (label label' : String) : String :=
  "  " ++ quoted label ++ " -- " ++ quoted label' ++ ";\n"

end Dot

/-- The DOT text of a graph. Nodes without a color get no fill. -/
def Graph.toDot [DecidableEq α] [ToString α] (g : Graph α) (coloring : Option (Coloring α)) :
    String :=
  "graph G \x7b\n" ++
    String.join (g.nodes.map fun a => Dot.nodeLine (toString a) (coloring.bind (·.get? a))) ++
    String.join (g.edges.map fun (a, b) => Dot.edgeLine (toString a) (toString b)) ++
    "\x7d\n"

end Tricolor
