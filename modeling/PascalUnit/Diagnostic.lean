import PascalUnit.Lexeme
import PascalUnit.Text.Quoted

/-!
# Diagnostics

The reasons for which a source is no unit, and their wording.
-/

namespace PascalUnit

namespace LexFault

def message : LexFault → String
  | strayCharacter c => "unexpected character " ++ Text.quoteChar c
  | openLiteral => "unterminated string literal"
  | openComment => "unterminated comment"

end LexFault

namespace LexError

def message (e : LexError) : String :=
  e.fault.message ++ " at " ++ e.position.render

end LexError

/--
A token that nothing in the grammar accepts at its place.  `found` is the end of
input when the source stops too early; `expected` lists what would be accepted.
-/
structure SyntaxError where
  span : Span
  position : Position
  found : Token
  expected : List Token
  deriving DecidableEq, Repr

namespace SyntaxError

def describeExpected : List Token → String
  | [] => "nothing"
  | [t] => t.describe
  | ts => "one of " ++ ", ".intercalate (ts.map Token.describe)

def message (e : SyntaxError) : String :=
  "unexpected " ++ e.found.describe ++ " at " ++ e.position.render ++
    ", expected " ++ describeExpected e.expected

end SyntaxError

inductive ParseError where
  | lexical (error : LexError)
  | structural (error : SyntaxError)
  deriving DecidableEq, Repr

namespace ParseError

def message : ParseError → String
  | lexical e => e.message
  | structural e => e.message

end ParseError
end PascalUnit
