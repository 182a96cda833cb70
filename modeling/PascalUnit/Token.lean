/-!
# Tokens of a unit

The vocabulary a unit is written in.  A token is a kind of lexeme: keywords
are recognised in any letter case, builtin type names only in upper case, and
marks by their exact spelling.  Identifiers, numbers and string literals take
their text from the source.

## Order

Tokens are listed once, in `Token.all`.  Every list of tokens shown to a
reader follows that order.
-/

namespace PascalUnit

/-!
## Keywords

The structural words of a unit.
-/

inductive Keyword where
  | unit
  | interface
  | implementation
  | uses
  | const
  | var
  | function
  | procedure
  | blockBegin
  | blockEnd
  | array
  | of
  | absolute
  | inherited
  deriving DecidableEq, Repr

namespace Keyword

def all : List Keyword :=
  [unit, interface, implementation, uses, const, var, function, procedure,
    blockBegin, blockEnd, array, of, absolute, inherited]

/-- The name under which a keyword is listed; its spelling is the same in upper case. -/
def name : Keyword → String
  | unit => "Unit"
  | interface => "Interface"
  | implementation => "Implementation"
  | uses => "Uses"
  | const => "Const"
  | var => "Var"
  | function => "Function"
  | procedure => "Procedure"
  | blockBegin => "Begin"
  | blockEnd => "End"
  | array => "Array"
  | of => "Of"
  | absolute => "Absolute"
  | inherited => "Inherited"

def spelling : Keyword → String
  | unit => "UNIT"
  | interface => "INTERFACE"
  | implementation => "IMPLEMENTATION"
  | uses => "USES"
  | const => "CONST"
  | var => "VAR"
  | function => "FUNCTION"
  | procedure => "PROCEDURE"
  | blockBegin => "BEGIN"
  | blockEnd => "END"
  | array => "ARRAY"
  | of => "OF"
  | absolute => "ABSOLUTE"
  | inherited => "INHERITED"

end Keyword

/-!
## Builtin types

The type names the language reserves in upper case: the string type, the
ordinal types and the real types.
-/

inductive Builtin where
  | string
  | shortInt
  | smallInt
  | integer
  | byte
  | longInt
  | int64
  | word
  | boolean
  | char
  | wideChar
  | longWord
  | pchar
  | real48
  | real
  | single
  | double
  | extended
  | currency
  | comp
  deriving DecidableEq, Repr

namespace Builtin

def ordinals : List Builtin :=
  [shortInt, smallInt, integer, byte, longInt, int64, word, boolean, char,
    wideChar, longWord, pchar]

def reals : List Builtin :=
  [real48, real, single, double, extended, currency, comp]

def all : List Builtin :=
  string :: ordinals ++ reals

def name : Builtin → String
  | string => "String"
  | shortInt => "ShortInt"
  | smallInt => "SmallInt"
  | integer => "Integer"
  | byte => "Byte"
  | longInt => "LongInt"
  | int64 => "Int64"
  | word => "Word"
  | boolean => "Boolean"
  | char => "Char"
  | wideChar => "WideChar"
  | longWord => "LongWord"
  | pchar => "PChar"
  | real48 => "Real48"
  | real => "Real"
  | single => "Single"
  | double => "Double"
  | extended => "Extended"
  | currency => "Currency"
  | comp => "Comp"

def spelling : Builtin → String
  | string => "STRING"
  | shortInt => "SHORTINT"
  | smallInt => "SMALLINT"
  | integer => "INTEGER"
  | byte => "BYTE"
  | longInt => "LONGINT"
  | int64 => "INT64"
  | word => "WORD"
  | boolean => "BOOLEAN"
  | char => "CHAR"
  | wideChar => "WIDECHAR"
  | longWord => "LONGWORD"
  | pchar => "PCHAR"
  | real48 => "REAL48"
  | real => "REAL"
  | single => "SINGLE"
  | double => "DOUBLE"
  | extended => "EXTENDED"
  | currency => "CURRENCY"
  | comp => "COMP"

end Builtin

/-!
## Marks

Punctuation.
-/

inductive Mark where
  | semicolon
  | comma
  | colon
  | equals
  | range
  | period
  | openParen
  | closeParen
  | openBracket
  | closeBracket
  deriving DecidableEq, Repr

namespace Mark

def all : List Mark :=
  [semicolon, comma, colon, equals, range, period, openParen, closeParen,
    openBracket, closeBracket]

def name : Mark → String
  | semicolon => "Semicolon"
  | comma => "Comma"
  | colon => "Colon"
  | equals => "Equals"
  | range => "Range"
  | period => "Period"
  | openParen => "OpenParen"
  | closeParen => "CloseParen"
  | openBracket => "OpenBracket"
  | closeBracket => "CloseBracket"

def spelling : Mark → String
  | semicolon => ";"
  | comma => ","
  | colon => ":"
  | equals => "="
  | range => ".."
  | period => "."
  | openParen => "("
  | closeParen => ")"
  | openBracket => "["
  | closeBracket => "]"

def label : Mark → String
  | semicolon => "semicolon"
  | comma => "comma"
  | colon => "colon"
  | equals => "equals"
  | range => "range"
  | period => "period"
  | openParen => "open-paren"
  | closeParen => "close-paren"
  | openBracket => "open-bracket"
  | closeBracket => "close-bracket"

end Mark

/-!
## Tokens

`comment` names the class of comments; no lexeme ever carries it, since
comments separate lexemes and are dropped.
-/

inductive Token where
  | keyword (word : Keyword)
  | builtin (type : Builtin)
  | ident
  | number
  | literal
  | comment
  | mark (sign : Mark)
  | endOfInput
  deriving DecidableEq, Repr

namespace Token

def all : List Token :=
  Keyword.all.map keyword ++ Builtin.all.map builtin ++
    [ident, number, literal, comment] ++ Mark.all.map mark ++ [endOfInput]

def name : Token → String
  | keyword w => w.name
  | builtin b => b.name
  | ident => "Ident"
  | number => "Number"
  | literal => "StringLiteral"
  | comment => "Comment"
  | mark m => m.name
  | endOfInput => "EndOfInput"

/-- The text of a token whose spelling the language fixes. -/
def spelling? : Token → Option String
  | keyword w => some w.spelling
  | builtin b => some b.spelling
  | mark m => some m.spelling
  | _ => none

def isKeyword : Token → Bool
  | keyword _ => true
  | _ => false

def isOrdinal : Token → Bool
  | builtin b => b ∈ Builtin.ordinals
  | _ => false

def isReal : Token → Bool
  | builtin b => b ∈ Builtin.reals
  | _ => false

/-- Words take their text from the source. -/
def isWord : Token → Bool
  | ident | number | literal => true
  | _ => false

def describe : Token → String
  | ident => "identifier"
  | number => "number"
  | literal => "string literal"
  | comment => "comment"
  | endOfInput => "end of input"
  | keyword w => "'" ++ w.spelling ++ "'"
  | builtin b => "'" ++ b.spelling ++ "'"
  | mark m => "'" ++ m.spelling ++ "'"

def lower (spelling : String) : String :=
  String.ofList (spelling.toList.map Char.toLower)

def label : Token → String
  | keyword w => lower w.spelling
  | builtin b => lower b.spelling
  | ident => "ident"
  | number => "number"
  | literal => "string-literal"
  | comment => "comment"
  | mark m => m.label
  | endOfInput => "end-of-input"

def tag (t : Token) : String :=
  "<" ++ t.label ++ ">"

/-!
## Listing order
-/

def rank (t : Token) : Nat :=
  all.idxOf t

/-- A list of tokens in listing order, repetitions kept. -/
def sort (ts : List Token) : List Token :=
  ts.mergeSort fun a b => decide (a.rank ≤ b.rank)

/-- The distinct members of a list of tokens, in listing order. -/
def listing (ts : List Token) : List Token :=
  all.filter fun t => decide (t ∈ ts)

theorem mem_all (t : Token) : t ∈ all := by
  cases t with
  | keyword w => cases w <;> decide
  | builtin b => cases b <;> decide
  | mark m => cases m <;> decide
  | ident | number | literal | comment | endOfInput => decide

theorem nodup_all : all.Nodup := by
  decide

@[simp] theorem mem_listing {t : Token} {ts : List Token} :
    t ∈ listing ts ↔ t ∈ ts := by
  simp [listing, mem_all]

theorem nodup_listing (ts : List Token) : (listing ts).Nodup :=
  nodup_all.filter _

end Token
end PascalUnit
