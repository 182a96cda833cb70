import PascalUnit.Settings.Key
import PascalUnit.Toml.Value

/-!
# Layered values

Settings are nested groups of values.  Each value remembers the file it came
from.  Laying one value over another merges groups entry by entry; anything
else replaces what was there.  A group that results from a merge comes from no
file.

## Entries of a file

The outermost names of a file are keys, which may have several steps.  Its entries
are laid one after the other as they are written, but a file promises no order: what
it means when it names one setting twice, by a key beside the group of the setting or
in another letter case, is left open.
-/

namespace PascalUnit
namespace Settings

inductive Scalar where
  | text (s : String)
  | integer (n : Int)
  | real (r : Toml.Real)
  | boolean (b : Bool)
  deriving DecidableEq, Repr

inductive Value where
  | unset
  | scalar (origin : Option String) (s : Scalar)
  | list (origin : Option String) (items : List Value)
  | group (origin : Option String) (entries : List (String × Value))
  deriving Repr

namespace Value

def entries : Value → List (String × Value)
  | group _ es => es
  | _ => []

def origin : Value → Option String
  | unset => none
  | scalar origin _ => origin
  | list origin _ => origin
  | group origin _ => origin

/-- Replaces the entry of a name, or adds one at the end. -/
def put (name : String) (v : Value) : List (String × Value) → List (String × Value)
  | [] => [(name, v)]
  | (k, old) :: es => if k = name then (name, v) :: es else (k, old) :: put name v es

/-- Changes the entry of a name; a value that is no group makes way for one from no file. -/
def updateEntry (name : String) (change : Option Value → Value) : Value → Value
  | group origin es => group origin (put name (change (es.lookup name)) es)
  | _ => group none [(name, change none)]

/-- The place of an item among so many; a negative index counts from the end. -/
def place (index : Int) (length : Nat) : Nat :=
  if index < 0 then (index + length).toNat else index.toNat

/-- Changes an item of a row, which grows as far as needed. -/
def changeItem (index : Int) (change : Option Value → Value) (items : List Value) : List Value :=
  let place := place index items.length
  let padded := items ++ List.replicate (place + 1 - items.length) unset
  padded.set place (change padded[place]?)

/-- Changes an item of a list; a value that is no list makes way for one from no file. -/
def updateItem (index : Int) (change : Option Value → Value) : Value → Value
  | list origin items => list origin (changeItem index change items)
  | _ => list none (changeItem index change [])

/-!
## Laying values over each other
-/

mutual
def laidOver (below : Option Value) : Value → Value
  | group _ es => laidOverEntries (below.getD (group none [])) es
  | v => v

def laidOverEntries (below : Value) : List (String × Value) → Value
  | [] => below
  | (name, v) :: es =>
      laidOverEntries (below.updateEntry name fun old => laidOver old v) es
end

/-- Lays a value over what stands at the end of some steps; an item of a list is replaced. -/
def overAt (v : Value) : List Step → Option Value → Value
  | [], below => laidOver below v
  | [.item index], below => (below.getD unset).updateItem index fun _ => v
  | .entry name :: steps, below =>
      (below.getD unset).updateEntry name (overAt v steps)
  | .item index :: steps, below =>
      (below.getD unset).updateItem index (overAt v steps)

def assign (root : Value) (key : Key) (v : Value) : Value :=
  root.updateEntry key.first (overAt v key.steps)

/-!
## Values of a file
-/

mutual
def ofToml (origin : Option String) : Toml.Value → Value
  | .text s => scalar origin (.text s)
  | .integer n => scalar origin (.integer n)
  | .real r => scalar origin (.real r)
  | .boolean b => scalar origin (.boolean b)
  | .array items => list origin (ofTomlAll origin items)
  | .table entries => group origin (ofTomlEntries origin entries)

def ofTomlAll (origin : Option String) : List Toml.Value → List Value
  | [] => []
  | v :: vs => ofToml origin v :: ofTomlAll origin vs

def ofTomlEntries (origin : Option String) :
    List (String × Toml.Value) → List (String × Value)
  | [] => []
  | (name, v) :: es => (lowerName name, ofToml origin v) :: ofTomlEntries origin es
end

/-- Lays the table of a file over values; its outermost names may be keys with several steps. -/
def overlay (root : Value) (origin : Option String) (table : List (String × Toml.Value)) :
    Value :=
  table.foldl
    (fun root (name, v) =>
      root.assign ((Key.parse? name).getD (Key.single name)) (ofToml origin v))
    root

end Value
end Settings
end PascalUnit
