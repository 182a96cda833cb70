/-!
# Magnitudes of 64-bit binary numbers

A magnitude is a whole multiple of a power of two.  The multiple has 53 bits
and the power is bounded on both sides, so most quotients lie between two
magnitudes and are read as the nearer one.
-/

namespace PascalUnit

/-- The magnitude `mantissa * 2 ^ power`. -/
structure Binary64 where
  mantissa : Nat
  power : Int
  deriving DecidableEq, Repr

namespace Binary64

def mantissaLimit : Nat := 0x20000000000000

/-- The smallest mantissa of a magnitude that could not have a smaller power. -/
def leadingMantissa : Nat := 0x10000000000000

def lowestPower : Int := -1074

def highestPower : Int := 971

def zero : Binary64 :=
  ⟨0, lowestPower⟩

/-!
## Rounding
-/

/-- The whole number nearest to a quotient, a half going to the even one. -/
def nearestEven (num den : Nat) : Nat :=
  let whole := num / den
  let twice := 2 * (num % den)
  if twice < den ∨ (twice = den ∧ whole % 2 = 0) then whole else whole + 1

def descale (num den : Nat) (power : Int) : Nat × Nat :=
  (num * Nat.pow 2 (-power).toNat, den * Nat.pow 2 power.toNat)

/--
The power of two that leaves 53 bits before the point of a quotient.  The
lengths of its two numbers leave only the choice between two powers.
-/
def leadingPower (num den : Nat) : Int :=
  let guess : Int := (Nat.log2 num : Int) - (Nat.log2 den : Int) - 53
  let (num, den) := descale num den guess
  if num / den < mantissaLimit then guess else guess + 1

def roundingPower (num den : Nat) : Int :=
  let power := leadingPower num den
  if power < lowestPower then lowestPower else power

/-- The magnitude nearest to a quotient, if not too large; a half goes to the even mantissa. -/
def nearest? (num den : Nat) : Option Binary64 :=
  let power := roundingPower num den
  let (num, den) := descale num den power
  let mantissa := nearestEven num den
  let rounded : Binary64 :=
    if mantissa < mantissaLimit then ⟨mantissa, power⟩ else ⟨leadingMantissa, power + 1⟩
  if rounded.power ≤ highestPower then some rounded else none

def round (m : Binary64) : Nat :=
  let (num, den) := descale m.mantissa 1 (-m.power)
  (2 * num + den) / (2 * den)

/-!
## Reading decimals
-/

/-- A decimal below this power of ten is nearest to zero. -/
def lowestTen : Int := -324

def highestTen : Int := 309

/--
The magnitude nearest to `digits * 10 ^ scale`, if it is not too large.  Far
outside the range the answer does not depend on the digits.
-/
def ofDecimal? (digits : Nat) (scale : Int) : Option Binary64 :=
  let ten := (Nat.toDigits 10 digits).length + scale
  if digits = 0 ∨ ten < lowestTen then some zero
  else if highestTen < ten then none
  else nearest? (digits * Nat.pow 10 scale.toNat) (Nat.pow 10 (-scale).toNat)

end Binary64
end PascalUnit
