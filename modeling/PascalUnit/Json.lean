/-!
# JSON values

The part of JSON that reports use: texts, counts, lists and records.  A value
is written on one line without blanks, or spread over lines with two blanks of
indentation for each level.
-/

namespace PascalUnit

inductive Json where
  | text (s : String)
  | count (n : Nat)
  | list (items : List Json)
  | record (fields : List (String × Json))
  deriving Repr

namespace Json

/-!
## Quoted texts
-/

def controlEscape (c : Char) : List Char :=
  let digits := Nat.toDigits 16 c.toNat
  ['\\', 'u'] ++ List.replicate (4 - digits.length) '0' ++ digits

def escape (c : Char) : List Char :=
  if c = '"' then ['\\', '"']
  else if c = '\\' then ['\\', '\\']
  else if c = '\x08' then ['\\', 'b']
  else if c = '\x0c' then ['\\', 'f']
  else if c = '\n' then ['\\', 'n']
  else if c = '\r' then ['\\', 'r']
  else if c = '\t' then ['\\', 't']
  else if c.toNat < 0x20 then controlEscape c
  else [c]

def quote (s : String) : List Char :=
  '"' :: s.toList.flatMap escape ++ ['"']

/-!
## On one line
-/

def enclose (opening closing : Char) (parts : List (List Char)) : List Char :=
  opening :: List.intercalate [','] parts ++ [closing]

mutual
def compact : Json → List Char
  | text s => quote s
  | count n => Nat.toDigits 10 n
  | list items => enclose '[' ']' (compactItems items)
  | record fields => enclose '\x7b' '\x7d' (compactFields fields)

def compactItems : List Json → List (List Char)
  | [] => []
  | j :: js => compact j :: compactItems js

def compactFields : List (String × Json) → List (List Char)
  | [] => []
  | (key, j) :: fs => (quote key ++ ':' :: compact j) :: compactFields fs
end

def render (j : Json) : String :=
  String.ofList j.compact

/-!
## Spread over lines
-/

def newLine (level : Nat) : List Char :=
  '\n' :: List.replicate (2 * level) ' '

/-- Parts between two brackets of a level, each on lines of its own. -/
def encloseLines (opening closing : Char) (level : Nat) :
    List (List Char) → List Char
  | [] => [opening, closing]
  | parts =>
      opening :: newLine (level + 1) ++
        List.intercalate (',' :: newLine (level + 1)) parts ++
          newLine level ++ [closing]

mutual
def spread (level : Nat) : Json → List Char
  | text s => quote s
  | count n => Nat.toDigits 10 n
  | list items => encloseLines '[' ']' level (spreadItems (level + 1) items)
  | record fields =>
      encloseLines '\x7b' '\x7d' level (spreadFields (level + 1) fields)

def spreadItems (level : Nat) : List Json → List (List Char)
  | [] => []
  | j :: js => spread level j :: spreadItems level js

def spreadFields (level : Nat) : List (String × Json) → List (List Char)
  | [] => []
  | (key, j) :: fs =>
      (quote key ++ [':', ' '] ++ spread level j) :: spreadFields level fs
end

def renderLines (j : Json) : String :=
  String.ofList (j.spread 0)

end Json
end PascalUnit
