import PascalUnit.Toml.Document
import PascalUnit.Toml.Scalar

/-!
# Reading TOML

A document is a row of lines, each of them empty, a header, or a key with its
value.  A malformed document has no value.
-/

namespace PascalUnit
namespace Toml

/-!
## Values

Each round of these readers takes a character or goes from a list to its next
item, so twice the length of the text bounds their number.
-/

mutual
def value? : Nat → Reader Value
  | 0, _ => none
  | fuel + 1, '[' :: cs =>
      (items? fuel (skipLines (cs.length + 1) cs)).map fun (vs, rest) => (.array vs, rest)
  | fuel + 1, '\x7b' :: cs =>
      match skipBlanks cs with
      | '\x7d' :: rest => some (.table [], rest)
      | rest => (fields? fuel Item.opened rest).map fun (item, rest) => (item.finish, rest)
  | _ + 1, cs => scalar? cs

/-- The items of a list, after its opening bracket or a comma. -/
def items? : Nat → Reader (List Value)
  | 0, _ => none
  | _ + 1, ']' :: cs => some ([], cs)
  | fuel + 1, cs =>
      match value? fuel cs with
      | none => none
      | some (v, rest) =>
          match skipLines (rest.length + 1) rest with
          | ',' :: more =>
              (items? fuel (skipLines (more.length + 1) more)).map fun (vs, rest) =>
                (v :: vs, rest)
          | ']' :: more => some ([v], more)
          | _ => none

/-- The fields of a table on one line, after its opening brace or a comma. -/
def fields? : Nat → Item → Reader Item
  | 0, _, _ => none
  | fuel + 1, item, cs =>
      match key? (cs.length + 1) cs with
      | none => none
      | some (keys, rest) =>
          match skipBlanks rest with
          | '=' :: more =>
              match value? fuel (skipBlanks more) with
              | none => none
              | some (v, rest) =>
                  match item.assign keys v with
                  | none => none
                  | some item =>
                      match skipBlanks rest with
                      | ',' :: more => fields? fuel item (skipBlanks more)
                      | '\x7d' :: more => some (item, more)
                      | _ => none
          | _ => none
end

/-!
## Lines
-/

/-- A document so far: all of its tables, and the header that is in force. -/
structure Draft where
  root : Item
  header : List String
  deriving Repr

namespace Draft

def start : Draft :=
  ⟨Item.opened, []⟩

def openHeader (opener : String → Item → Option Item) (keys : List String)
    (d : Draft) : Option Draft :=
  match keys.reverse with
  | [] => none
  | key :: earlier =>
      (d.root.change false (opener key) earlier.reverse).map fun root => ⟨root, keys⟩

def assign (keys : List String) (v : Value) (d : Draft) : Option Draft :=
  (d.root.change false (Item.assign keys v) d.header).map fun root => ⟨root, d.header⟩

end Draft

def header? (width : Nat) (cs : List Char) : Option (List String × List Char) :=
  match key? (cs.length + 1) (skipBlanks cs) with
  | none => none
  | some (keys, rest) =>
      let rest := skipBlanks rest
      if rest.take width = List.replicate width ']' then some (keys, rest.drop width)
      else none

def line? (d : Draft) : List Char → Option (Draft × List Char)
  | '[' :: '[' :: cs =>
      match header? 2 cs with
      | none => none
      | some (keys, rest) => (d.openHeader Item.openNext keys).map fun d => (d, rest)
  | '[' :: cs =>
      match header? 1 cs with
      | none => none
      | some (keys, rest) => (d.openHeader Item.openTable keys).map fun d => (d, rest)
  | cs =>
      match key? (cs.length + 1) cs with
      | none => none
      | some (keys, rest) =>
          match skipBlanks rest with
          | '=' :: more =>
              match value? (2 * more.length + 2) (skipBlanks more) with
              | none => none
              | some (v, rest) => (d.assign keys v).map fun d => (d, rest)
          | _ => none

def lines? : Nat → Draft → List Char → Option Draft
  | 0, _, _ => none
  | fuel + 1, d, cs =>
      match skipLines (cs.length + 1) cs with
      | [] => some d
      | rest =>
          match line? d rest with
          | none => none
          | some (d, rest) =>
              match lineEnd? rest with
              | none => none
              | some rest => lines? fuel d rest

def skipMark : List Char → List Char
  | '\ufeff' :: cs => cs
  | cs => cs

def parse? (source : String) : Option (List (String × Value)) :=
  let cs := skipMark source.toList
  match lines? (cs.length + 1) Draft.start cs with
  | none => none
  | some d =>
      match d.root with
      | .table _ _ entries => some (Item.finishEntries entries)
      | _ => none

end Toml
end PascalUnit
