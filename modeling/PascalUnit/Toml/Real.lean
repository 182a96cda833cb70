import PascalUnit.Binary64.Shortest

/-!
# Real numbers of TOML

A real number is a binary number of 64 bits with a sign, or one of the special
ones.  It is written with the fewest digits that are read as the same number.
-/

namespace PascalUnit
namespace Toml

inductive Real where
  | finite (negative : Bool) (magnitude : Binary64)
  | infinite (negative : Bool)
  | notANumber
  deriving DecidableEq, Repr

namespace Real

def sign (negative : Bool) : String :=
  if negative then "-" else ""

def positional (digits : Nat) (scale : Int) : List Char :=
  let written := Nat.toDigits 10 digits
  match scale with
  | .ofNat zeros => written ++ List.replicate zeros '0'
  | .negSucc n =>
      let places := n + 1
      let padded := List.replicate (places + 1 - written.length) '0' ++ written
      padded.take (padded.length - places) ++ '.' :: padded.drop (padded.length - places)

def render : Real → String
  | infinite negative => sign negative ++ "inf"
  | notANumber => "NaN"
  | finite negative magnitude =>
      let (digits, scale) := magnitude.shortest
      sign negative ++ String.ofList (positional digits scale)

/-- The nearest count, a half going away from zero; out of range, the nearest bound. -/
def toCount (limit : Nat) : Real → Nat
  | infinite negative => if negative then 0 else limit - 1
  | notANumber => 0
  | finite true _ => 0
  | finite false magnitude => min (limit - 1) magnitude.round

/-- The real number nearest to a decimal.  Only a negative one may lie beyond all finite ones. -/
def ofDecimal? (negative : Bool) (digits : Nat) (scale : Int) : Option Real :=
  match Binary64.ofDecimal? digits scale with
  | some magnitude => some (finite negative magnitude)
  | none => if negative then some (infinite true) else none

end Real
end Toml
end PascalUnit
