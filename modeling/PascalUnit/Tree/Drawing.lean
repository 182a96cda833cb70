import PascalUnit.Tree

/-!
# Drawing a tree

A drawing has one line for each node, parents before children.  A line starts
with one cell for each level above the node, which carries the vertical rule
down as long as that level has more nodes to come.  Then come a connector and
the label of the node.
-/

namespace PascalUnit
namespace Drawing

/-- Cuts a text to `width` characters and marks the cut. -/
def shorten (width : Nat) (text : List Char) : List Char :=
  if text.length > width then text.take width ++ ['.', '.', '.'] else text

def connector (last : Bool) : List Char :=
  if last then ['└', '─'] else ['├', '─']

def cell (last : Bool) : List Char :=
  if last then [' ', ' '] else ['│', ' ']

def label (width : Nat) : Tree → List Char
  | .leaf text => shorten width text.toList
  | .node r ts =>
      r.name.toList ++ [':', ' '] ++ shorten width (Tree.node r ts).text.toList

def line (width : Nat) (cells : List Char) (last : Bool) (t : Tree) : List Char :=
  cells ++ connector last ++ ' ' :: label width t ++ ['\n']

mutual
/-- The lines of a tree; `last` tells whether any sibling follows it. -/
def lines (width : Nat) (cells : List Char) (last : Bool) : Tree → List Char
  | .leaf text => line width cells last (.leaf text)
  | .node r ts =>
      line width cells last (.node r ts) ++ linesAll width (cells ++ cell last) ts

def linesAll (width : Nat) (cells : List Char) : List Tree → List Char
  | [] => []
  | t :: ts => lines width cells ts.isEmpty t ++ linesAll width cells ts
end

end Drawing

def Tree.draw (width : Nat) (t : Tree) : String :=
  String.ofList (Drawing.lines width [] true t)

end PascalUnit
