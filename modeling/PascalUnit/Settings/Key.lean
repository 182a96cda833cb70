import PascalUnit.Text.Decimal

/-!
# Keys of settings

A key names a place among nested settings: a name, then any number of names
after dots and of places in a list between brackets.  Letter case makes no
difference between names, so they are kept in lower case.
-/

namespace PascalUnit
namespace Settings

inductive Step where
  | entry (name : String)
  /-- A place in a list; a negative one counts from the end. -/
  | item (index : Int)
  deriving DecidableEq, Repr

/-- The first step of a key is always a name. -/
structure Key where
  first : String
  steps : List Step
  deriving DecidableEq, Repr

def lowerName (name : String) : String :=
  name.map Char.toLower

namespace Key

def isPart (c : Char) : Bool :=
  c.isAlphanum || c = '_' || c = '-' || c = ' '

def name? (cs : List Char) : Option (String × List Char) :=
  let name := cs.takeWhile isPart
  if name.isEmpty then none else some (lowerName (String.ofList name), cs.dropWhile isPart)

def isBlank (c : Char) : Bool :=
  c = ' ' || c = '\t'

/-- Places are 64 bits wide, signed. -/
def inRange (index : Int) : Bool :=
  decide (-0x8000000000000000 ≤ index ∧ index < 0x8000000000000000)

def place? (cs : List Char) : Option (Int × List Char) :=
  let cs := cs.dropWhile isBlank
  let negative := cs.head? = some '-'
  let cs := if negative then cs.tail else cs
  let digits := cs.takeWhile Char.isDigit
  let size : Int := Text.digitsValue digits
  let index := if negative then -size else size
  match (cs.dropWhile Char.isDigit).dropWhile isBlank with
  | ']' :: rest =>
      if !digits.isEmpty && inRange index then some (index, rest) else none
  | _ => none

def steps? : Nat → List Char → Option (List Step)
  | _, [] => some []
  | fuel + 1, '.' :: cs =>
      match name? cs with
      | none => none
      | some (name, rest) => (steps? fuel rest).map (.entry name :: ·)
  | fuel + 1, '[' :: cs =>
      match place? cs with
      | none => none
      | some (index, rest) => (steps? fuel rest).map (.item index :: ·)
  | _, _ => none

def parse? (text : String) : Option Key :=
  match name? text.toList with
  | none => none
  | some (name, rest) => (steps? rest.length rest).map fun steps => ⟨name, steps⟩

/-- A key that is one name, whatever its characters. -/
def single (name : String) : Key :=
  ⟨lowerName name, []⟩

end Key
end Settings
end PascalUnit
