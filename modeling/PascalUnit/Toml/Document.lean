import PascalUnit.Toml.Value

/-!
# Tables of a TOML document under construction

Tables are built up from headers and from keys with dots.  What may still be
added to a table depends on how it came about: a value is complete, a table
opened by a header or made by a dotted key is not opened again, and a table
that only stands on the way to another one may still get a header of its own.
-/

namespace PascalUnit
namespace Toml

inductive Item where
  | value (v : Value)
  /-- A table; `passed` tells that no header opened it, `dotted` that a dotted key made it. -/
  | table (passed dotted : Bool) (entries : List (String × Item))
  /-- The tables that repeated headers of one name opened, in order. -/
  | tables (elements : List Item)
  deriving Repr

namespace Item

def opened : Item :=
  table false false []

def put (key : String) (item : Item) : List (String × Item) → List (String × Item)
  | [] => [(key, item)]
  | (k, old) :: es => if k = key then (key, item) :: es else (k, old) :: put key item es

/--
Changes the table at the end of a row of keys by `act`.  Missing tables on the
way are made; a row of tables is entered at its last one; a value on the way is
refused, and so is a table with a header when the keys are dotted.
-/
def change (dotted : Bool) (act : Item → Option Item) : List String → Item → Option Item
  | [], item => act item
  | key :: keys, table passed wasDotted entries =>
      match entries.lookup key with
      | none =>
          (change dotted act keys (table true dotted [])).map fun item =>
            table passed wasDotted (put key item entries)
      | some (value _) => none
      | some (table subPassed subDotted subEntries) =>
          if dotted && !subPassed then none
          else
            (change dotted act keys (table subPassed subDotted subEntries)).map fun item =>
              table passed wasDotted (put key item entries)
      | some (tables elements) =>
          match elements.reverse with
          | [] => none
          | last :: earlier =>
              (change dotted act keys last).map fun item =>
                table passed wasDotted (put key (tables (item :: earlier).reverse) entries)
  | _ :: _, _ => none

def openTable (key : String) : Item → Option Item
  | table passed dotted entries =>
      match entries.lookup key with
      | none => some (table passed dotted (put key opened entries))
      | some (table true false inner) =>
          some (table passed dotted (put key (table false false inner) entries))
      | some _ => none
  | _ => none

def openNext (key : String) : Item → Option Item
  | table passed dotted entries =>
      match entries.lookup key with
      | none => some (table passed dotted (put key (tables [opened]) entries))
      | some (tables elements) =>
          some (table passed dotted (put key (tables (elements ++ [opened])) entries))
      | some _ => none
  | _ => none

/-- Adds a value below a table; `direct` tells that its key has no dots. -/
def insert (direct : Bool) (key : String) (v : Value) : Item → Option Item
  | table passed dotted entries =>
      if dotted = direct ∨ (entries.lookup key).isSome then none
      else some (table passed dotted (entries ++ [(key, value v)]))
  | _ => none

def assign (keys : List String) (v : Value) (item : Item) : Option Item :=
  match keys.reverse with
  | [] => none
  | key :: earlier =>
      change true (insert earlier.isEmpty key v) earlier.reverse item

mutual
def finish : Item → Value
  | value v => v
  | table _ _ entries => .table (finishEntries entries)
  | tables elements => .array (finishAll elements)

def finishEntries : List (String × Item) → List (String × Value)
  | [] => []
  | (key, item) :: es => (key, finish item) :: finishEntries es

def finishAll : List Item → List Value
  | [] => []
  | item :: items => finish item :: finishAll items
end

end Item
end Toml
end PascalUnit
