import PascalUnit.Lexeme

/-!
# Token dump

A dump shows the tokens of a source in angle brackets, words with their text.
A line ends after each semicolon and at the end of input.
-/

namespace PascalUnit
namespace Dump

/-- A token and its text in angle brackets; only words show their text. -/
def entry (token : Token) (text : String) : List Char :=
  if token.isWord then
    '<' :: token.label.toList ++ ':' :: text.toList ++ ['>']
  else '<' :: token.label.toList ++ ['>']

def endsLine (token : Token) : Bool :=
  decide (token = .mark .semicolon ∨ token = .endOfInput)

def line (token : Token) (text : String) : List Char :=
  if endsLine token then entry token text ++ ['\n'] else entry token text

def render (row : List (Token × String)) : String :=
  String.ofList (row.flatMap fun (token, text) => line token text)

end Dump

def dump (xs : List Lexeme) : String :=
  Dump.render (xs.map fun x => (x.token, x.text))

end PascalUnit
