/-!
# Counts in decimal

A count is written with ASCII digits and may carry a plus sign.  Counts are at
most 64 bits wide.
-/

namespace PascalUnit
namespace Text

def countLimit : Nat := 0x10000000000000000

def digitsValue (digits : List Char) : Nat :=
  Nat.ofDigitChars 10 digits 0

def isDigits (cs : List Char) : Bool :=
  !cs.isEmpty && cs.all Char.isDigit

def dropPlus : List Char → List Char
  | '+' :: cs => cs
  | cs => cs

def readCount? (cs : List Char) : Option Nat :=
  let digits := dropPlus cs
  if isDigits digits && decide (digitsValue digits < countLimit) then
    some (digitsValue digits)
  else none

def writeCount (n : Nat) : List Char :=
  Nat.toDigits 10 n

end Text
end PascalUnit
