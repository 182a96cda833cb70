import PascalUnit.Lexeme
import PascalUnit.Tree

/-!
# Grammar pieces

A piece describes rows of tokens together with the trees they are given.  A
token gives one leaf, a rule gives one node over the trees of its body, and
every other piece only passes on the trees of its parts, in order.

## Derivations

`Derives` says which rows of tokens a piece covers and which trees it gives
them.  It reads a piece as an ordinary grammar: alternatives are not ordered,
and a repetition may stop anywhere.
-/

namespace PascalUnit

inductive Piece where
  | nothing
  | token (t : Token)
  | both (first second : Piece)
  | either (first second : Piece)
  | many (body : Piece)
  | named (r : Rule) (body : Piece)
  deriving DecidableEq, Repr

namespace Piece

/-!
## Derived forms
-/

def keyword (k : Keyword) : Piece :=
  token (.keyword k)

def builtin (b : Builtin) : Piece :=
  token (.builtin b)

def mark (m : Mark) : Piece :=
  token (.mark m)

def seq : List Piece → Piece
  | [] => nothing
  | [p] => p
  | p :: ps => both p (seq ps)

/-- One of several pieces, the first of which is given apart. -/
def oneOf (p : Piece) : List Piece → Piece
  | [] => p
  | q :: qs => either p (oneOf q qs)

def optional (p : Piece) : Piece :=
  either p nothing

def oneOrMore (p : Piece) : Piece :=
  both p (many p)

def separated (separator p : Piece) : Piece :=
  both p (many (both separator p))

/-!
## Derivations
-/

/-- The piece covers the tokens and gives them the trees; `leafText` gives the text of a leaf. -/
inductive Derives (leafText : PlacedToken → String) :
    Piece → List PlacedToken → List Tree → Prop where
  | nothing : Derives leafText nothing [] []
  | token (x : PlacedToken) :
      Derives leafText (token x.token) [x] [.leaf (leafText x)]
  | both {p q : Piece} {xs ys : List PlacedToken} {ts us : List Tree} :
      Derives leafText p xs ts → Derives leafText q ys us →
        Derives leafText (both p q) (xs ++ ys) (ts ++ us)
  | first {p q : Piece} {xs : List PlacedToken} {ts : List Tree} :
      Derives leafText p xs ts → Derives leafText (either p q) xs ts
  | second {p q : Piece} {xs : List PlacedToken} {ts : List Tree} :
      Derives leafText q xs ts → Derives leafText (either p q) xs ts
  | stop {p : Piece} : Derives leafText (many p) [] []
  | more {p : Piece} {xs ys : List PlacedToken} {ts us : List Tree} :
      Derives leafText p xs ts → Derives leafText (many p) ys us →
        Derives leafText (many p) (xs ++ ys) (ts ++ us)
  | named {r : Rule} {p : Piece} {xs : List PlacedToken} {ts : List Tree} :
      Derives leafText p xs ts → Derives leafText (named r p) xs [.node r ts]

end Piece
end PascalUnit
