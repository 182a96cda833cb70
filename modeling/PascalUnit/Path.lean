import PascalUnit.Rule
import PascalUnit.Text.Decimal
import PascalUnit.Text.Name
import PascalUnit.Text.Quoted

/-!
# Paths

A path leads from the root of a tree to one of its nodes.  It is written as a
row of segments, each after a slash: the rule of the node to go to and, in
brackets, its place among the children of that rule.  Without brackets the
first of them is meant.

## Errors

The first segment that is not well formed is reported, by the first thing that
is wrong with it.
-/

namespace PascalUnit

structure Segment where
  rule : Rule
  index : Option Nat
  deriving DecidableEq, Repr

structure Path where
  segments : List Segment
  deriving DecidableEq, Repr

inductive PathError where
  | missingSlash (path : String)
  | emptySegment (depth : Nat)
  | invalidName (name : String) (depth : Nat)
  | unknownRule (name : String) (depth : Nat)
  | malformedIndex (segment : String) (depth : Nat)
  deriving DecidableEq, Repr

namespace PathError

def message : PathError → String
  | missingSlash path => "path must start with '/': " ++ Text.quoteText path
  | emptySegment depth => "empty segment at depth " ++ toString depth
  | invalidName name depth =>
      "invalid rule name " ++ Text.quoteText name ++ " at depth " ++ toString depth
  | unknownRule name depth =>
      "unknown rule '" ++ name ++ "' at depth " ++ toString depth
  | malformedIndex segment depth =>
      "malformed index in segment " ++ Text.quoteText segment ++ " at depth " ++
        toString depth

end PathError

/-!
## Segments
-/

namespace Segment

/-- The place among the children of a rule that a segment selects. -/
def position (s : Segment) : Nat :=
  s.index.getD 0

def spell (s : Segment) : List Char :=
  match s.index with
  | none => s.rule.name.toList
  | some i => s.rule.name.toList ++ '[' :: Text.writeCount i ++ [']']

def render (s : Segment) : String :=
  String.ofList s.spell

def isBracket (c : Char) : Bool :=
  c = '[' || c = ']'

/-- Divides a segment into its name and the text between its brackets, if it has any. -/
def divide? (cs : List Char) : Option (List Char × Option (List Char)) :=
  let name := cs.takeWhile fun c => !isBracket c
  match cs.dropWhile fun c => !isBracket c with
  | [] => some (name, none)
  | '[' :: rest =>
      if (rest.dropWhile fun c => !isBracket c) = [']'] then
        some (name, some (rest.takeWhile fun c => !isBracket c))
      else none
  | _ => none

def readIndex? : Option (List Char) → Option (Option Nat)
  | none => some none
  | some text => (Text.readCount? text).map some

def parse (depth : Nat) (cs : List Char) : Except PathError Segment :=
  if cs.isEmpty then .error (.emptySegment depth)
  else
    match divide? cs with
    | none => .error (.malformedIndex (String.ofList cs) depth)
    | some (name, index) =>
        if !Text.isName name then .error (.invalidName (String.ofList name) depth)
        else
          match Rule.ofName? (String.ofList name) with
          | none => .error (.unknownRule (String.ofList name) depth)
          | some rule =>
              match readIndex? index with
              | none => .error (.malformedIndex (String.ofList cs) depth)
              | some i => .ok ⟨rule, i⟩

end Segment

/-!
## Whole paths
-/

namespace Path

def spell (p : Path) : List Char :=
  p.segments.flatMap fun s => '/' :: s.spell

def render (p : Path) : String :=
  String.ofList p.spell

def parseSegments (depth : Nat) : List (List Char) → Except PathError (List Segment)
  | [] => .ok []
  | cs :: rest =>
      match Segment.parse depth cs with
      | .error e => .error e
      | .ok s =>
          match parseSegments (depth + 1) rest with
          | .error e => .error e
          | .ok ss => .ok (s :: ss)

def parse (path : String) : Except PathError Path :=
  match path.toList with
  | '/' :: cs =>
      match parseSegments 0 (cs.splitOn '/') with
      | .error e => .error e
      | .ok segments => .ok ⟨segments⟩
  | _ => .error (.missingSlash path)

end Path
end PascalUnit
