import PascalUnit.Grammar.Piece

/-!
# The grammar of a unit

One piece for each production, written from the bottom up: no production uses
itself, not even through others.
-/

namespace PascalUnit
namespace Grammar

open Piece

/-!
## Names
-/

def ident : Piece :=
  named .ident (token .ident)

def identList : Piece :=
  named .identList (separated (mark .comma) ident)

def qualId : Piece :=
  named .qualId ident

def typeId : Piece :=
  named .typeId ident

/-!
## Types
-/

def stringType : Piece :=
  named .stringType (builtin .string)

def ordIdent : Piece :=
  named .ordIdent
    (oneOf (builtin .shortInt)
      [builtin .smallInt, builtin .integer, builtin .byte, builtin .longInt,
        builtin .int64, builtin .word, builtin .boolean, builtin .char,
        builtin .wideChar, builtin .longWord, builtin .pchar])

def ordinalType : Piece :=
  named .ordinalType ordIdent

def realType : Piece :=
  named .realType
    (oneOf (builtin .real48)
      [builtin .real, builtin .single, builtin .double, builtin .extended,
        builtin .currency, builtin .comp])

def simpleType : Piece :=
  named .simpleType (oneOf ordinalType [realType])

def type : Piece :=
  named .type (oneOf simpleType [typeId, stringType])

/-- A bound of a range is a bare leaf. -/
def bound : Piece :=
  oneOf (token .number) [token .ident]

def subrangeType : Piece :=
  named .subrangeType (seq [bound, mark .range, bound])

/-!
## Constants
-/

def number : Piece :=
  named .number (token .number)

def string : Piece :=
  named .string (token .literal)

def constExpr : Piece :=
  named .constExpr (oneOf number [string])

def typedConstant : Piece :=
  named .typedConstant constExpr

def constDecl : Piece :=
  named .constDecl
    (seq
      [ident,
        oneOf
          (seq [mark .equals, constExpr])
          [seq [mark .colon, type, mark .equals, typedConstant]]])

def constSection : Piece :=
  named .constSection
    (seq [keyword .const, oneOrMore (seq [constDecl, mark .semicolon])])

/-!
## Variables
-/

def arrayVariable : Piece :=
  seq
    [keyword .array,
      oneOf
        (seq [keyword .of, type])
        [seq [mark .openBracket, subrangeType, mark .closeBracket, keyword .of, type]]]

def typedVariable : Piece :=
  seq
    [type,
      optional
        (oneOf
          (seq [mark .equals, constExpr])
          [seq [keyword .absolute, ident]])]

def varDecl : Piece :=
  named .varDecl
    (seq [identList, mark .colon, oneOf arrayVariable [typedVariable]])

def varSection : Piece :=
  named .varSection
    (seq [keyword .var, oneOrMore (seq [varDecl, mark .semicolon])])

/-!
## Headings
-/

def parameterType : Piece :=
  named .parameterType (oneOf simpleType [builtin .string, qualId])

def returnType : Piece :=
  named .returnType (oneOf simpleType [builtin .string, qualId])

/--
A single name with a default value stands alone; every other parameter names
its targets through a list.
-/
def parameter : Piece :=
  named .parameter
    (oneOf
      (seq [identList, mark .colon, keyword .array, keyword .of, parameterType])
      [seq [ident, mark .colon, parameterType, mark .equals, constExpr],
        seq
          [identList, mark .colon, parameterType,
            optional (seq [mark .equals, constExpr])]])

def formalParm : Piece :=
  named .formalParm parameter

def formalParms : Piece :=
  named .formalParms
    (seq
      [mark .openParen,
        optional (separated (mark .semicolon) formalParm),
        mark .closeParen])

def functionHeading : Piece :=
  named .functionHeading
    (seq [keyword .function, ident, formalParms, mark .colon, returnType])

def procedureHeading : Piece :=
  named .procedureHeading (seq [keyword .procedure, ident, formalParms])

def exportedHeading : Piece :=
  named .exportedHeading
    (seq [oneOf functionHeading [procedureHeading], mark .semicolon])

/-!
## Bodies
-/

def statement : Piece :=
  named .statement (seq [keyword .inherited, mark .semicolon])

def block : Piece :=
  named .block
    (seq [keyword .blockBegin, many statement, keyword .blockEnd])

def procedureDecl : Piece :=
  named .procedureDecl
    (seq [procedureHeading, mark .semicolon, block, mark .semicolon])

def functionDecl : Piece :=
  named .functionDecl
    (seq [functionHeading, mark .semicolon, block, mark .semicolon])

def procedureDeclSection : Piece :=
  named .procedureDeclSection (oneOf procedureDecl [functionDecl])

/-!
## Sections
-/

def usesClause : Piece :=
  named .usesClause (seq [keyword .uses, identList, mark .semicolon])

def interfaceDecl : Piece :=
  named .interfaceDecl (oneOf constSection [varSection, exportedHeading])

def interfaceSection : Piece :=
  named .interfaceSection
    (seq [keyword .interface, optional usesClause, many interfaceDecl])

def declSection : Piece :=
  named .declSection (oneOf constSection [varSection, procedureDeclSection])

def implementationSection : Piece :=
  named .implementationSection
    (seq [keyword .implementation, optional usesClause, many declSection])

/-!
## The unit
-/

def unit : Piece :=
  named .unit
    (seq
      [keyword .unit, ident, mark .semicolon, optional interfaceSection,
        optional implementationSection, mark .period])

/-- The whole of a source; the end of input follows it. -/
def goal : Piece :=
  named .goal unit

end Grammar
end PascalUnit
