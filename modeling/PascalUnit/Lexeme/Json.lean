import PascalUnit.Json
import PascalUnit.Lexeme

/-!
# Lexemes as JSON
-/

namespace PascalUnit

def Token.toJson (t : Token) : Json :=
  .text t.name

def Span.toJson (s : Span) : Json :=
  .record [("start", .count s.start), ("end", .count s.stop)]

def Position.toJson (p : Position) : Json :=
  .record [("line", .count p.line), ("column", .count p.column)]

def Lexeme.toJson (x : Lexeme) : Json :=
  .record
    [("token", x.token.toJson), ("text", .text x.text), ("span", x.span.toJson),
      ("position", x.position.toJson)]

end PascalUnit
