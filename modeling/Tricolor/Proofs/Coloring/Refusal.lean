import Tricolor.Coloring.Backtrack
import Tricolor.Coloring.Dsatur
import Tricolor.Coloring.SatOracle
import Tricolor.Proofs.Coloring.Proper

/-!
# Seeds that every oracle refuses

An oracle checks its seed if it refuses whatever `validateSeed` refuses,
and for the same fault (`ChecksSeed`). All three oracles do, in every
state and before anything is colored, so none of them answers for a seed
that is not valid (`ChecksSeed.exists_fault`).
-/

namespace Tricolor

variable {α : Type} [DecidableEq α] [ToString α] {g : Graph α} {seed : Coloring α}
variable {palette : List Color} {e : Error}

namespace ColoringOracle

variable {σ : Type} [ColoringOracle σ α] {oracle : σ}

/-- An oracle refuses whatever the check of seeds refuses, with the same
error. -/
def ChecksSeed (oracle : σ) (α : Type) [DecidableEq α] [ToString α] [ColoringOracle σ α] : Prop :=
  ∀ (g : Graph α) (seed : Coloring α) (palette : List Color) (e : Error),
    validateSeed g seed = .error e → (color oracle g seed palette).1 = .error e

/-- Such an oracle answers for valid seeds only. -/
theorem ChecksSeed.exists_fault (h : ChecksSeed oracle α) (hseed : ¬ ValidSeed g seed)
    (palette : List Color) :
    ∃ fault, (color oracle g seed palette).1 = .error (.invalidSeed fault) := by
  obtain ⟨fault, hfault⟩ := exists_validateSeed_eq_error_iff.2 hseed
  exact ⟨fault, h g seed palette _ hfault⟩

end ColoringOracle

open ColoringOracle (ChecksSeed)

theorem dsaturWithStats_eq_error (h : validateSeed g seed = .error e) :
    dsaturWithStats g seed palette = .error e := by
  rw [dsaturWithStats, dsaturWithStats?, h]
  rfl

theorem dsatur_eq_error (h : validateSeed g seed = .error e) :
    dsatur g seed palette = .error e := by
  rw [dsatur, dsaturWithStats_eq_error h]
  rfl

theorem Dsatur.checksSeed (oracle : Dsatur) : ChecksSeed oracle α := by
  intro g seed palette e h
  simp only [ColoringOracle.color, dsaturWithStats_eq_error h]

theorem Backtracker.checksSeed (oracle : Backtracker) : ChecksSeed oracle α := by
  intro g seed palette e h
  simp only [ColoringOracle.color, Backtrack.color, h]

theorem Encoding.encode_eq_error (h : validateSeed g seed = .error e) :
    encode g seed palette = .error e := by
  rw [encode, h]
  rfl

/-- The solver is not asked about a problem without an encoding. -/
theorem SatOracle.color_eq_error {S : Type} [Backend S] (oracle : SatOracle S)
    (h : Encoding.encode g seed palette = .error e) :
    (ColoringOracle.color oracle g seed palette).1 = .error e := by
  simp only [ColoringOracle.color, colorWith, h]

theorem SatOracle.checksSeed {S : Type} [Backend S] (oracle : SatOracle S) :
    ChecksSeed oracle α :=
  fun _ _ _ _ h => oracle.color_eq_error (Encoding.encode_eq_error h)

end Tricolor
