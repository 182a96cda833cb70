import PascalUnit.Binary64

/-!
# The shortest decimal of a binary number

Many decimals are read as the same magnitude: all those between the points
halfway to its two neighbours.  The shortest of them lies on the coarsest grid
of multiples of a power of ten that has a point there, and of the points of
that grid it is the nearest.

Bounds are counted in quarters of the power of two of the magnitude.  There
both of them are whole numbers.
-/

namespace PascalUnit
namespace Binary64

/-- The point halfway to the next smaller magnitude, which is closer below a power of two. -/
def lowerQuarters (m : Binary64) : Nat :=
  if m.mantissa = leadingMantissa ∧ lowestPower < m.power then 4 * m.mantissa - 1
  else 4 * m.mantissa - 2

def upperQuarters (m : Binary64) : Nat :=
  4 * m.mantissa + 2

def commonUnits (m : Binary64) (ten : Int) : Nat × Nat :=
  (Nat.pow 2 (m.power - 2).toNat * Nat.pow 10 (-ten).toNat,
    Nat.pow 2 (2 - m.power).toNat * Nat.pow 10 ten.toNat)

/-- Whether `n * 10 ^ ten` is read as a magnitude; a bound belongs to the even mantissa. -/
def reads (m : Binary64) (ten : Int) (n : Nat) : Bool :=
  let (quarter, unit) := m.commonUnits ten
  let lower := m.lowerQuarters * quarter
  let upper := m.upperQuarters * quarter
  if m.mantissa % 2 = 0 then decide (lower ≤ n * unit ∧ n * unit ≤ upper)
  else decide (lower < n * unit ∧ n * unit < upper)

def below (m : Binary64) (ten : Int) : Nat :=
  let (quarter, unit) := m.commonUnits ten
  4 * m.mantissa * quarter / unit

def inLowerHalf (m : Binary64) (ten : Int) : Bool :=
  let (quarter, unit) := m.commonUnits ten
  decide (2 * (4 * m.mantissa * quarter % unit) < unit)

/--
The multiple of a power of ten nearest to a magnitude, among those that are
read as it; of two that are equally near, the larger.
-/
def onGrid? (m : Binary64) (ten : Int) : Option Nat :=
  let n := m.below ten
  if m.reads ten n && (m.inLowerHalf ten || !m.reads ten (n + 1)) then some n
  else if m.reads ten (n + 1) then some (n + 1)
  else none

/-- The decimal on the coarsest of the grids `10 ^ (finest + grids - 1)`, …, `10 ^ finest`. -/
def search? (m : Binary64) (finest : Int) : Nat → Option (Nat × Int)
  | 0 => none
  | grids + 1 =>
      match m.onGrid? (finest + grids) with
      | some n => some (n, finest + grids)
      | none => m.search? finest grids

def shortest (m : Binary64) : Nat × Int :=
  if m.mantissa = 0 then (0, 0)
  else (m.search? lowestTen (highestTen - lowestTen).toNat).getD (0, 0)

/-!
## What is found
-/

theorem reads_of_onGrid? {m : Binary64} {ten : Int} {n : Nat} (h : m.onGrid? ten = some n) :
    m.reads ten n = true := by
  unfold onGrid? at h
  grind

/-- A decimal found by the search is read as the magnitude, and no coarser grid has one. -/
theorem search?_eq_some {m : Binary64} {finest : Int} {grids n : Nat} {ten : Int}
    (h : m.search? finest grids = some (n, ten)) :
    m.reads ten n = true ∧
      ∀ coarser, ten < coarser → coarser < finest + grids → m.onGrid? coarser = none := by
  induction grids with
  | zero =>
      simp [search?] at h
  | succ grids ih =>
      unfold search? at h
      split at h
      · next hit =>
          rcases Prod.mk.inj (Option.some.inj h) with ⟨rfl, rfl⟩
          refine ⟨reads_of_onGrid? hit, ?_⟩
          intro coarser above bounded
          omega
      · next miss =>
          rcases ih h with ⟨read, none_coarser⟩
          refine ⟨read, ?_⟩
          intro coarser above bounded
          by_cases last : coarser = finest + grids
          · rw [last]
            exact miss
          · exact none_coarser coarser above (by omega)

end Binary64
end PascalUnit
