import PascalUnit.Diagnostic
import PascalUnit.Grammar.Productions
import PascalUnit.Grammar.Reading
import PascalUnit.Lexeme.Scan

/-!
# The tree of a unit

A source is divided into tokens, which the grammar then reads as one unit that
leaves no token over.
-/

namespace PascalUnit

/-- The text of a leaf: the fixed spelling of its token, or else the source text. -/
def PlacedToken.leafText (cs : List Char) (x : PlacedToken) : String :=
  match x.token.spelling? with
  | some text => text
  | none => x.sourceText cs

def significant (tokens : List PlacedToken) : List PlacedToken :=
  tokens.filter fun x => decide (x.token ≠ .endOfInput)

namespace Grammar

/-- Reads a whole row of tokens as a unit; wants the end of input after it. -/
def readGoal (leafText : PlacedToken → String) (tokens : List PlacedToken) :
    Except Stall Tree :=
  match unit.read leafText ⟨0, tokens⟩ with
  | .refused s => .error s
  | .matched ts c s =>
      if c.rest.isEmpty then .ok (.node .goal ts)
      else .error (s.join ⟨c.place, [.endOfInput]⟩)

end Grammar

namespace SyntaxError

def ofStall (cs : List Char) (tokens : List PlacedToken) (s : Stall) : SyntaxError :=
  let size := Text.byteLength cs
  let found := tokens[s.place]?.getD ⟨.endOfInput, ⟨size, size⟩⟩
  { span := found.span
    position := Position.ofOffset cs found.span.start
    found := found.token
    expected := Token.listing s.wanted }

end SyntaxError

namespace Tree

def ofTokens (cs : List Char) (tokens : List PlacedToken) : Except SyntaxError Tree :=
  let row := significant tokens
  match Grammar.readGoal (PlacedToken.leafText cs) row with
  | .ok t => .ok t
  | .error s => .error (SyntaxError.ofStall cs row s)

def parse (cs : List Char) : Except ParseError Tree :=
  match placedTokens cs with
  | .error e => .error (.lexical e)
  | .ok tokens =>
      match ofTokens cs tokens with
      | .error e => .error (.structural e)
      | .ok t => .ok t

end Tree
end PascalUnit
