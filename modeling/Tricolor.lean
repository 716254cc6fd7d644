import Tricolor.Cli.Store
import Tricolor.Main
import Tricolor.Proofs.Distinct
import Tricolor.Proofs.Graph.Growth
import Tricolor.Proofs.Coloring.Lookup
import Tricolor.Proofs.Coloring.Proper
import Tricolor.Proofs.Formula.Truth
import Tricolor.Proofs.Gadget.Shape
import Tricolor.Proofs.Coloring.FirstFit
import Tricolor.Proofs.Gadget.Hues
import Tricolor.Proofs.Coloring.Placement
import Tricolor.Proofs.Coloring.Search
import Tricolor.Proofs.Gadget.Colorability
import Tricolor.Proofs.Coloring.Backtrack
import Tricolor.Proofs.Coloring.Agenda
import Tricolor.Proofs.Coloring.Greedy
import Tricolor.Proofs.Coloring.Dsatur
import Tricolor.Proofs.Gadget.Seed
import Tricolor.Proofs.Gadget.Greedy
import Tricolor.Proofs.Cnf.Basic
import Tricolor.Proofs.Coloring.Encoding
import Tricolor.Proofs.Sat.Backend
import Tricolor.Proofs.Sat.Frontend
import Tricolor.Proofs.Coloring.SatOracle
import Tricolor.Proofs.Gadget.Extract
import Tricolor.Proofs.Reduction
import Tricolor.Proofs.Coloring.Domain
import Tricolor.Proofs.Cnf.Model
import Tricolor.Proofs.Coloring.Models
import Tricolor.Proofs.Coloring.Completion
import Tricolor.Proofs.Gadget.Reading
import Tricolor.Proofs.Substitution
import Tricolor.Proofs.Outcome
import Tricolor.Proofs.Coloring.Refusal
import Tricolor.Proofs.Failure
import Tricolor.Proofs.Gadget.ColorCount
import Tricolor.Proofs.Coloring.Agreement
import Tricolor.Proofs.Coloring.Recoloring
import Tricolor.Proofs.Coloring.Renaming
import Tricolor.Proofs.Gadget.Renaming
import Tricolor.Proofs.Renaming
import Tricolor.Proofs.Sat.Calls
import Tricolor.Proofs.Text.Split
import Tricolor.Proofs.Text.Numeral
import Tricolor.Proofs.Text.Encoding
import Tricolor.Proofs.Formula.Grammar
import Tricolor.Proofs.Formula.Reading
import Tricolor.Proofs.Formula.RoundTrip
import Tricolor.Proofs.Graph.Edges
import Tricolor.Proofs.Graph.Calls
import Tricolor.Proofs.Graph.NeighborSets
import Tricolor.Proofs.Graph.Runs
import Tricolor.Proofs.Coloring.Plain
import Tricolor.Proofs.Coloring.Bipartite
import Tricolor.Proofs.Coloring.Minimal
import Tricolor.Proofs.Coloring.Locality
import Tricolor.Proofs.Coloring.SameShape
import Tricolor.Proofs.Coloring.StepLimit
import Tricolor.Proofs.Gadget.Locality
import Tricolor.Proofs.Random.Draw
import Tricolor.Proofs.Formula.Random
import Tricolor.Proofs.Gadget.Counts
import Tricolor.Proofs.Graph.Equality
import Tricolor.Proofs.Sat.Formula
import Tricolor.Proofs.Cnf.Dimacs
import Tricolor.Proofs.Formula.Continuation
import Tricolor.Proofs.Coloring.Export
import Tricolor.Proofs.Coloring.Variables
import Tricolor.Proofs.Gadget.Mirror
import Tricolor.Proofs.Formula.Clauses
import Tricolor.Proofs.Graph.Dot
import Tricolor.Proofs.Coloring.Restoration
import Tricolor.Proofs.Coloring.Overflow
import Tricolor.Proofs.Gadget.Label
