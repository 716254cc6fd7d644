import Tricolor.Formula.Random
import Tricolor.Proofs.Formula.Truth
import Tricolor.Proofs.Random.Draw

/-!
# Random formulas are valid

A literal is drawn as a variable number, cast to 32 bits and possibly
negated. As the number of variables is cut off at the greatest literal,
neither the cast nor the negation can overflow: a drawing of the same
formula that checks both of them (`random?`, `planted?`) never fails, and
draws the same. All literals are then in range, so a random formula is
accepted, and negating one literal of a clause that the hidden assignment
makes false makes the clause true (`random_planted_valid`).
-/

namespace Tricolor

open Tricolor.Random (Checked Draw Generator)
open Tricolor.Random.Draw (Yields yields_true yields_below lift_bind ofOption ofOption_some_bind)

/-! ## Literals of 32 bits -/

namespace Literal

variable {n : Nat} {x y : Literal}

/-- A number as a literal, if 32 bits hold it. -/
def ofNat? (n : Nat) : Option Literal := if n < 2147483648 then some (Int32.ofNat n) else none

/-- The negation of a literal, if 32 bits hold it. -/
def negate? (x : Literal) : Option Literal := if x = Int32.minValue then none else some (-x)

/-- A checked cast keeps the number. -/
theorem ofNat?_eq_some_iff : ofNat? n = some x ↔ x.toInt = n := by
  unfold ofNat?
  split
  · rename_i h
    rw [Option.some_inj, ← Int32.toInt_inj, Int32.toInt_ofNat_of_lt h]
    exact eq_comm
  · have := x.toInt_lt
    simp only [reduceCtorEq, false_iff]
    omega

/-- A checked negation negates the number. -/
theorem negate?_eq_some_iff : negate? x = some y ↔ y.toInt = -x.toInt := by
  unfold negate?
  split
  · rename_i h
    subst h
    have hmin : Int32.minValue.toInt = -2147483648 := rfl
    have := y.toInt_lt
    simp only [reduceCtorEq, false_iff]
    omega
  · rename_i h
    have hmin : x.toInt ≠ -2147483648 := fun hx => h (Int32.toInt_inj.1 hx)
    have := x.toInt_lt
    have := x.le_toInt
    rw [Option.some_inj, ← Int32.toInt_inj, Int32.toInt_neg,
      Int.bmod_eq_of_le (by omega) (by omega)]
    exact eq_comm

theorem ofNat?_eq_some (h : n < 2147483648) : ofNat? n = some (Int32.ofNat n) := if_pos h

theorem negate?_eq_some (h : x.var < 2147483648) : negate? x = some (-x) := by
  refine if_neg ?_
  rintro rfl
  exact absurd h (by decide)

theorem toInt_neg (h : x.var < 2147483648) : (-x).toInt = -x.toInt :=
  negate?_eq_some_iff.1 (negate?_eq_some h)

theorem var_neg (h : x.var < 2147483648) : (-x).var = x.var := by
  rw [var, toInt_neg h, Int.natAbs_neg, var]

theorem var_ofNat (h : n < 2147483648) : var (Int32.ofNat n) = n := by
  rw [var, ofNat?_eq_some_iff.1 (ofNat?_eq_some h), Int.natAbs_natCast]

/-- A literal names one of the first `n` variables. -/
def Names (n : Nat) (x : Literal) : Prop := 0 < x.var ∧ x.var ≤ n

theorem Names.var_lt (h : Names n x) (hn : n < 2147483648) : x.var < 2147483648 :=
  Nat.lt_of_le_of_lt h.2 hn

theorem Names.neg (h : Names n x) (hn : n < 2147483648) : Names n (-x) := by
  rwa [Names, var_neg (h.var_lt hn)]

end Literal

open Literal (Names)

/-- A literal and its negation have opposite values. -/
theorem Assignment.holds_neg {a : Assignment} {x : Literal} (h : Names a.size x)
    (hlt : x.var < 2147483648) : a.holds (-x) = !a.holds x := by
  obtain ⟨hpos, hle⟩ := h
  obtain ⟨value, hvalue⟩ := get?_eq_some_of_le hpos hle
  have hsign : (-x).isPositive = !x.isPositive := by
    simp only [Literal.isPositive, Literal.toInt_neg hlt]
    rw [Literal.var] at hpos
    grind
  rw [holds_eq, holds_eq, Literal.var_neg hlt, hsign, hvalue]
  cases value <;> cases x.isPositive <;> rfl

namespace Formula

variable {n m k : Nat} {c : Clause} {hidden : Assignment}

/-! ## Clauses -/

theorem names_ofNat (hk : k < n) (hn : n < 2147483648) : Names n (Int32.ofNat (1 + k)) := by
  rw [Names, Literal.var_ofNat (by omega)]
  omega

theorem yields_drawLiteral (hpos : 0 < n) (hn : n < 2147483648) :
    Yields (drawLiteral n) (Names n) := by
  refine (yields_below hpos).bind fun k hk => ?_
  have hx := names_ofNat hk hn
  refine (yields_true Draw.bool).bind fun positive _ => .pure ?_
  cases positive with
  | true => exact hx
  | false => exact hx.neg hn

theorem yields_drawClause (hpos : 0 < n) (hn : n < 2147483648) :
    Yields (drawClause n) fun c => ∀ x ∈ c.literals, Names n x := by
  have hdraw := yields_drawLiteral hpos hn
  refine hdraw.bind fun first hfirst => hdraw.bind fun second hsecond =>
    hdraw.bind fun third hthird => .pure ?_
  simp [Clause.literals, hfirst, hsecond, hthird]

/-- Negating a literal of a clause keeps the others. -/
theorem exists_negateAt (c : Clause) (k : Nat) :
    ∃ x ∈ c.literals, -x ∈ (negateAt c k).literals ∧
      ∀ y ∈ (negateAt c k).literals, y = -x ∨ y ∈ c.literals := by
  match k with
  | 0 => exact ⟨c.first, by simp [Clause.literals, negateAt]⟩
  | 1 => exact ⟨c.second, by simp [Clause.literals, negateAt]⟩
  | _ + 2 => exact ⟨c.third, by simp [Clause.literals, negateAt]⟩

/-- **A planted clause is true under the hidden assignment**: where all of
its literals were false, the one that is negated is true. -/
theorem yields_drawPlantedClause (hpos : 0 < n) (hn : n < 2147483648)
    (hnum : hidden.size = n) :
    Yields (drawPlantedClause n hidden) fun c =>
      (∀ x ∈ c.literals, Names n x) ∧ c.isSatisfiedBy hidden := by
  refine (yields_drawClause hpos hn).bind fun c hc => ?_
  split
  · rename_i htrue
    exact .pure ⟨hc, htrue⟩
  · rename_i hfalse
    refine (yields_below (by decide)).bind fun k _ => .pure ?_
    obtain ⟨x, hx, hneg, hmem⟩ := exists_negateAt c k
    refine ⟨fun y hy => ?_, List.any_eq_true.2 ⟨-x, hneg, ?_⟩⟩
    · rcases hmem y hy with rfl | hy
      · exact (hc x hx).neg hn
      · exact hc y hy
    · have hholds : hidden.holds x = false :=
        Bool.eq_false_iff.2 fun h => hfalse (List.any_eq_true.2 ⟨x, hx, h⟩)
      have hflip := Assignment.holds_neg (hnum ▸ hc x hx) ((hc x hx).var_lt hn)
      rwa [hholds] at hflip

/-! ## Checked drawing -/

/-- Draws a literal, with the cast and the negation checked. -/
def drawLiteral? (n : Nat) : Checked Literal := do
  let k ← OptionT.lift (Draw.below n)
  let x ← ofOption (Literal.ofNat? (1 + k))
  if ← OptionT.lift Draw.bool then return x else ofOption x.negate?

def drawClause? (n : Nat) : Checked Clause := do
  let first ← drawLiteral? n
  let second ← drawLiteral? n
  let third ← drawLiteral? n
  return ⟨first, second, third⟩

/-- Negates one of the three literals of a clause. -/
def negateAt? (c : Clause) : Nat → Option Clause
  | 0 => c.first.negate?.map fun x => { c with first := x }
  | 1 => c.second.negate?.map fun x => { c with second := x }
  | 2 => c.third.negate?.map fun x => { c with third := x }
  | _ => none

def drawPlantedClause? (n : Nat) (hidden : Assignment) : Checked Clause := do
  let c ← drawClause? n
  if c.literals.any fun x => hidden.literal? x == some true then
    return c
  else
    ofOption (negateAt? c (← OptionT.lift (Draw.below 3)))

def drawMany? {α : Type} (m : Nat) (draw : Checked α) : Checked (List α) :=
  (List.range m).mapM fun _ => draw

/-- A random formula, with every cast and negation checked. -/
def random? (numVars : UInt32) (numClauses : Nat) (seed : UInt64) : Option Formula :=
  let n := clampVars numVars
  if n = 0 then some ⟨n, []⟩
  else (drawMany? numClauses (drawClause? n.toNat) (Generator.ofSeed seed)).1.map (Formula.mk n)

/-- A planted formula, with every cast, negation and choice of a literal
checked. -/
def planted? (numVars : UInt32) (numClauses : Nat) (seed : UInt64) :
    Option (Formula × Assignment) :=
  let n := clampVars numVars
  let (values, g) := drawMany n.toNat Draw.bool (Generator.ofSeed seed)
  let hidden : Assignment := ⟨values⟩
  if n = 0 then some (⟨n, []⟩, hidden)
  else (drawMany? numClauses (drawPlantedClause? n.toNat hidden) g).1.map fun clauses =>
    (⟨n, clauses⟩, hidden)

/-- **Drawing a literal does not overflow.** -/
theorem drawLiteral?_eq (hpos : 0 < n) (hn : n < 2147483648) :
    drawLiteral? n = OptionT.lift (drawLiteral n) := by
  refine lift_bind (yields_below hpos) fun k hk => ?_
  have hcast := Literal.ofNat?_eq_some (by omega : 1 + k < 2147483648)
  have hneg := Literal.negate?_eq_some ((names_ofNat hk hn).var_lt hn)
  rw [hcast, ofOption_some_bind, hneg]
  refine lift_bind (yields_true Draw.bool) fun positive _ => ?_
  cases positive <;> rfl

theorem drawClause?_eq (hpos : 0 < n) (hn : n < 2147483648) :
    drawClause? n = OptionT.lift (drawClause n) := by
  rw [drawClause?, drawLiteral?_eq hpos hn]
  rfl

theorem negateAt?_eq (hc : ∀ x ∈ c.literals, Names n x) (hn : n < 2147483648) (hk : k < 3) :
    negateAt? c k = some (negateAt c k) := by
  have hneg : ∀ x ∈ c.literals, Literal.negate? x = some (-x) := fun x hx =>
    Literal.negate?_eq_some ((hc x hx).var_lt hn)
  simp only [Clause.literals, List.forall_mem_cons] at hneg
  obtain ⟨hfirst, hsecond, hthird, -⟩ := hneg
  obtain rfl | rfl | rfl : k = 0 ∨ k = 1 ∨ k = 2 := by omega
  · rw [negateAt?, hfirst]
    rfl
  · rw [negateAt?, hsecond]
    rfl
  · rw [negateAt?, hthird]
    rfl

theorem drawPlantedClause?_eq (hpos : 0 < n) (hn : n < 2147483648) :
    drawPlantedClause? n hidden = OptionT.lift (drawPlantedClause n hidden) := by
  rw [drawPlantedClause?, drawClause?_eq hpos hn]
  refine lift_bind (yields_drawClause hpos hn) fun c hc => ?_
  split
  · rfl
  · refine lift_bind (yields_below (by decide)) fun k hk => ?_
    rw [negateAt?_eq hc hn hk]
    rfl

theorem drawMany?_eq {α : Type} {draw? : Checked α} {draw : Draw α}
    (h : draw? = OptionT.lift draw) : drawMany? m draw? = OptionT.lift (drawMany m draw) := by
  rw [h]
  exact Random.Draw.lift_mapM

/-! ## Formulas -/

/-- The number of variables of a formula that is drawn: as many as are
asked for, and no more than literals can name. -/
def drawnVars (numVars : UInt32) : Nat := min numVars.toNat 2147483647

theorem toNat_clampVars (numVars : UInt32) : (clampVars numVars).toNat = drawnVars numVars := by
  have hle : numVars ≤ 2147483647 ↔ numVars.toNat ≤ 2147483647 := Iff.rfl
  simp only [clampVars, hle]
  split
  · rename_i h
    exact (Nat.min_eq_left h).symm
  · rename_i h
    exact (Nat.min_eq_right (Nat.le_of_not_le h)).symm

/-- The number of variables is that of a literal. -/
theorem toNat_clampVars_lt (numVars : UInt32) : (clampVars numVars).toNat < 2147483648 := by
  rw [toNat_clampVars, drawnVars]
  omega

theorem toNat_pos_of_ne_zero {n : UInt32} (h : n ≠ 0) : 0 < n.toNat :=
  Nat.pos_of_ne_zero fun hzero => h (UInt32.toNat_inj.1 hzero)

/-- The hidden assignment, and the rest of the stream. -/
def drawHidden (n : Nat) (seed : UInt64) : Assignment × Generator :=
  (drawMany n Draw.bool (Generator.ofSeed seed)).map Assignment.mk id

theorem size_drawHidden (n : Nat) (seed : UInt64) : (drawHidden n seed).1.size = n :=
  (((yields_true Draw.bool).mapM) (Generator.ofSeed seed)).1.trans List.length_range

/-- The clauses of a formula; without variables there are none. -/
def drawClauses (n : UInt32) (m : Nat) (draw : Draw Clause) (g : Generator) : List Clause :=
  if n = 0 then [] else (drawMany m draw g).1

theorem length_drawClauses (n : UInt32) (m : Nat) (draw : Draw Clause) (g : Generator) :
    (drawClauses n m draw g).length = if n.toNat = 0 then 0 else m := by
  have hzero : n.toNat = 0 ↔ n = 0 := UInt32.toNat_inj (b := 0)
  simp only [drawClauses, hzero]
  split
  · rfl
  · exact ((yields_true draw).mapM g).1.trans List.length_range

theorem forall_mem_drawClauses {n : UInt32} {draw : Draw Clause} {p : Clause → Prop}
    (h : 0 < n.toNat → Yields draw p) (g : Generator) : ∀ c ∈ drawClauses n m draw g, p c := by
  rw [drawClauses]
  split
  · exact fun c hc => absurd hc List.not_mem_nil
  · rename_i hne
    exact ((h (toNat_pos_of_ne_zero hne)).mapM g).2

variable (numVars : UInt32) (numClauses : Nat) (seed : UInt64)

theorem random_eq : random numVars numClauses seed =
    ⟨clampVars numVars, drawClauses (clampVars numVars) numClauses
      (drawClause (clampVars numVars).toNat) (Generator.ofSeed seed)⟩ := by
  simp only [random, drawClauses]
  split <;> rfl

theorem planted_eq : planted numVars numClauses seed =
    let (hidden, g) := drawHidden (clampVars numVars).toNat seed
    (⟨clampVars numVars, drawClauses (clampVars numVars) numClauses
      (drawPlantedClause (clampVars numVars).toNat hidden) g⟩, hidden) := by
  by_cases hzero : clampVars numVars = 0
  · simp only [planted, drawClauses, if_pos hzero]
    rfl
  · simp only [planted, drawClauses, if_neg hzero]
    rfl

/-- **A random formula is drawn without overflow.** -/
theorem random?_eq : random? numVars numClauses seed = some (random numVars numClauses seed) := by
  simp only [random?, random]
  split
  · rfl
  · rename_i hne
    rw [drawMany?_eq (drawClause?_eq (toNat_pos_of_ne_zero hne) (toNat_clampVars_lt numVars))]
    rfl

/-- **And so is a planted one.** -/
theorem planted?_eq :
    planted? numVars numClauses seed = some (planted numVars numClauses seed) := by
  by_cases hzero : clampVars numVars = 0
  · simp only [planted?, planted, if_pos hzero]
    rfl
  · have hpos := toNat_pos_of_ne_zero hzero
    simp only [planted?, planted, if_neg hzero,
      drawMany?_eq (drawPlantedClause?_eq hpos (toNat_clampVars_lt numVars))]
    rfl

/-- A formula of `n` variables and `m` clauses, or none without variables,
that is accepted. -/
structure Drawn (n m : Nat) (f : Formula) : Prop where
  numVars : f.numVars.toNat = n
  length : f.clauses.length = if n = 0 then 0 else m
  accepted : f.validate = .ok ()

theorem drawn_drawClauses {n : UInt32} {draw : Draw Clause} (g : Generator)
    (h : 0 < n.toNat → Yields draw fun c => ∀ x ∈ c.literals, Names n.toNat x) :
    Drawn n.toNat m ⟨n, drawClauses n m draw g⟩ where
  numVars := rfl
  length := length_drawClauses n m draw g
  accepted := validate_eq_ok_iff.2 (forall_mem_drawClauses h g)

/-- **Random formulas are valid, and planted ones are satisfied.** For all
numbers of variables and clauses and all seeds, the formula has as many
variables as asked for and as literals can name, as many clauses as asked
for, if it has variables, and is accepted; and drawing it does not
overflow. The hidden assignment of a planted formula has a value for each
variable and satisfies every clause. -/
theorem random_planted_valid :
    random? numVars numClauses seed = some (random numVars numClauses seed) ∧
    Drawn (drawnVars numVars) numClauses (random numVars numClauses seed) ∧
    ∃ f hidden, planted numVars numClauses seed = (f, hidden) ∧
      planted? numVars numClauses seed = some (f, hidden) ∧
      Drawn (drawnVars numVars) numClauses f ∧
      hidden.size = drawnVars numVars ∧ f.isSatisfiedBy hidden := by
  have hlt := toNat_clampVars_lt numVars
  have hnum := size_drawHidden (clampVars numVars).toNat seed
  have hyields (hpos : 0 < (clampVars numVars).toNat) := yields_drawPlantedClause hpos hlt hnum
  rw [random?_eq, random_eq, planted?_eq, planted_eq, ← toNat_clampVars]
  refine ⟨rfl, drawn_drawClauses _ fun hpos => yields_drawClause hpos hlt, _, _, rfl, rfl,
    drawn_drawClauses _ fun hpos g => (hyields hpos g).1, hnum, ?_⟩
  exact List.all_eq_true.2 (forall_mem_drawClauses (fun hpos g => (hyields hpos g).2) _)

end Formula

end Tricolor
