import PascalUnit.Path
import PascalUnit.Tree

/-!
# Following a path

The first segment of a path names the root; each later one picks a child of the
node reached so far.  A path that leads nowhere is reported at its first
segment that cannot be followed.
-/

namespace PascalUnit

inductive QueryError where
  | rootMismatch (segment : Segment) (root : Rule)
  | noMatch (segment : Segment) (depth : Nat)
  | indexOutOfRange (segment : Segment) (depth index available : Nat)
  | leafReached (segment : Segment) (depth : Nat)
  deriving DecidableEq, Repr

namespace QueryError

def segment : QueryError → Segment
  | rootMismatch s _ | noMatch s _ | indexOutOfRange s _ _ _ | leafReached s _ => s

/-- The place of that segment in its path; the root segment is at depth zero. -/
def depth : QueryError → Nat
  | rootMismatch _ _ => 0
  | noMatch _ d | indexOutOfRange _ d _ _ | leafReached _ d => d

def message : QueryError → String
  | rootMismatch s root =>
      "segment '" ++ s.render ++ "' does not name the root rule '" ++ root.name ++ "'"
  | noMatch s d =>
      "no '" ++ s.rule.name ++ "' child for segment '" ++ s.render ++ "' at depth " ++
        toString d
  | indexOutOfRange s d index available =>
      "segment '" ++ s.render ++ "' at depth " ++ toString d ++ " asks for index " ++
        toString index ++ " but only " ++ toString available ++ " match"
  | leafReached s d =>
      "segment '" ++ s.render ++ "' at depth " ++ toString d ++ " reached a leaf"

end QueryError

namespace Path

/-- The outcome of looking for a child: the child, or how many nodes of its rule there are. -/
inductive Sought where
  | found (t : Tree)
  | missing (available : Nat)
  deriving Repr

/--
Looks through siblings for the node of rule `r` at place `index` among those of
its rule, of which `passed` have been seen before.
-/
def seek (r : Rule) (index passed : Nat) : List Tree → Sought
  | [] => .missing passed
  | t :: ts =>
      if t.isNodeOf r then
        if passed = index then .found t else seek r index (passed + 1) ts
      else seek r index passed ts

def descend (depth : Nat) (t : Tree) : List Segment → Except QueryError Tree
  | [] => .ok t
  | s :: ss =>
      match t with
      | .leaf _ => .error (.leafReached s depth)
      | .node _ ts =>
          match seek s.rule s.position 0 ts with
          | .found u => descend (depth + 1) u ss
          | .missing 0 => .error (.noMatch s depth)
          | .missing available => .error (.indexOutOfRange s depth s.position available)

def evaluate (root : Tree) (p : Path) : Except QueryError Tree :=
  match p.segments with
  | [] => .ok root
  | s :: ss =>
      match root with
      | .leaf _ => .error (.leafReached s 0)
      | .node r _ =>
          if r ≠ s.rule then .error (.rootMismatch s r)
          else if s.position > 0 then .error (.indexOutOfRange s 0 s.position 1)
          else descend 1 root ss

end Path

inductive LookupError where
  | malformed (error : PathError)
  | unfollowed (error : QueryError)
  deriving DecidableEq, Repr

namespace LookupError

def message : LookupError → String
  | malformed e => e.message
  | unfollowed e => e.message

end LookupError

def Tree.lookup (root : Tree) (path : String) : Except LookupError Tree :=
  match Path.parse path with
  | .error e => .error (.malformed e)
  | .ok p =>
      match p.evaluate root with
      | .error e => .error (.unfollowed e)
      | .ok t => .ok t

end PascalUnit
