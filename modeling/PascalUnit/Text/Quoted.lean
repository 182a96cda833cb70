import PascalUnit.Text.Unprinted

/-!
# Quoted text in messages

A message shows a character or a text that came from its reader between quotes,
with every character that would not be seen as itself written as an escape.
-/

namespace PascalUnit
namespace Text

def codeEscape (c : Char) : List Char :=
  "\\u\x7b".toList ++ Nat.toDigits 16 c.toNat ++ ['\x7d']

def escape (quote c : Char) : List Char :=
  if c = '\x00' then ['\\', '0']
  else if c = '\t' then ['\\', 't']
  else if c = '\r' then ['\\', 'r']
  else if c = '\n' then ['\\', 'n']
  else if c = '\\' || c = quote then ['\\', c]
  else if isUnprinted c then codeEscape c
  else [c]

def quoteChar (c : Char) : String :=
  String.ofList ('\'' :: escape '\'' c ++ ['\''])

def quoteText (s : String) : String :=
  String.ofList ('"' :: s.toList.flatMap (escape '"') ++ ['"'])

end Text
end PascalUnit
