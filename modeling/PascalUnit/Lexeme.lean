import PascalUnit.Position
import PascalUnit.Token

/-!
# Lexemes

A lexeme is a token together with the text that spells it and its place in the
source.  Lexical faults are the three ways in which a text can fail to be a
row of lexemes.
-/

namespace PascalUnit

structure PlacedToken where
  token : Token
  span : Span
  deriving DecidableEq, Repr

structure Lexeme where
  token : Token
  text : String
  span : Span
  position : Position
  deriving DecidableEq, Repr

inductive LexFault where
  | strayCharacter (c : Char)
  | openLiteral
  | openComment
  deriving DecidableEq, Repr

/--
A fault with its place: the stray character itself, or the quote, brace or
parenthesis and star that opens what never closes.
-/
structure LexError where
  fault : LexFault
  span : Span
  position : Position
  deriving DecidableEq, Repr

end PascalUnit
