import PascalUnit.Token
import PascalUnit.Tree

/-!
# The grammar as a set of rules

Here the grammar is given once more, as it is written down for people: a table
with one right-hand side for each rule, in which rules are referred to by name.
Derivation trees are read off the table alone.  Nothing is ordered in it, and
nothing is tried or given up.
-/

namespace PascalUnit

structure Terminal where
  kind : Token
  text : String
  deriving DecidableEq, Repr

inductive Ebnf where
  | empty
  | terminal (kind : Token)
  | rule (r : Rule)
  | seq (first second : Ebnf)
  | alt (first second : Ebnf)
  | star (body : Ebnf)
  deriving DecidableEq, Repr

namespace Ebnf

def keyword (k : Keyword) : Ebnf :=
  terminal (.keyword k)

def builtin (b : Builtin) : Ebnf :=
  terminal (.builtin b)

def mark (m : Mark) : Ebnf :=
  terminal (.mark m)

def row : List Ebnf → Ebnf
  | [] => empty
  | [e] => e
  | e :: es => seq e (row es)

/-- Any one of several, the first of which is given apart. -/
def anyOf (e : Ebnf) : List Ebnf → Ebnf
  | [] => e
  | f :: fs => alt e (anyOf f fs)

def opt (e : Ebnf) : Ebnf :=
  alt e empty

def plus (e : Ebnf) : Ebnf :=
  seq e (star e)

/-!
## The table
-/

/-- A bound of a range is a bare leaf. -/
def bound : Ebnf :=
  anyOf (terminal .number) [terminal .ident]

/-- The right-hand side of a rule; the end of input follows the goal and gives no leaf. -/
def body : Rule → Ebnf
  | .goal => rule .unit
  | .unit =>
      row
        [keyword .unit, rule .ident, mark .semicolon, opt (rule .interfaceSection),
          opt (rule .implementationSection), mark .period]
  | .interfaceSection =>
      row [keyword .interface, opt (rule .usesClause), star (rule .interfaceDecl)]
  | .interfaceDecl =>
      anyOf (rule .constSection) [rule .varSection, rule .exportedHeading]
  | .exportedHeading =>
      row [anyOf (rule .functionHeading) [rule .procedureHeading], mark .semicolon]
  | .functionHeading =>
      row
        [keyword .function, rule .ident, rule .formalParms, mark .colon, rule .returnType]
  | .procedureHeading => row [keyword .procedure, rule .ident, rule .formalParms]
  | .formalParms =>
      row
        [mark .openParen,
          opt (row [rule .formalParm, star (row [mark .semicolon, rule .formalParm])]),
          mark .closeParen]
  | .formalParm => rule .parameter
  | .parameter =>
      anyOf
        (row
          [rule .identList, mark .colon, keyword .array, keyword .of, rule .parameterType])
        [row
          [rule .ident, mark .colon, rule .parameterType, mark .equals, rule .constExpr],
          row
            [rule .identList, mark .colon, rule .parameterType,
              opt (row [mark .equals, rule .constExpr])]]
  | .parameterType => anyOf (rule .simpleType) [builtin .string, rule .qualId]
  | .returnType => anyOf (rule .simpleType) [builtin .string, rule .qualId]
  | .implementationSection =>
      row [keyword .implementation, opt (rule .usesClause), star (rule .declSection)]
  | .declSection =>
      anyOf (rule .constSection) [rule .varSection, rule .procedureDeclSection]
  | .procedureDeclSection => anyOf (rule .procedureDecl) [rule .functionDecl]
  | .procedureDecl =>
      row [rule .procedureHeading, mark .semicolon, rule .block, mark .semicolon]
  | .functionDecl =>
      row [rule .functionHeading, mark .semicolon, rule .block, mark .semicolon]
  | .block => row [keyword .blockBegin, star (rule .statement), keyword .blockEnd]
  | .statement => row [keyword .inherited, mark .semicolon]
  | .usesClause => row [keyword .uses, rule .identList, mark .semicolon]
  | .constSection =>
      row [keyword .const, plus (row [rule .constDecl, mark .semicolon])]
  | .constDecl =>
      anyOf
        (row [rule .ident, mark .equals, rule .constExpr])
        [row [rule .ident, mark .colon, rule .type, mark .equals, rule .typedConstant]]
  | .typedConstant => rule .constExpr
  | .constExpr => anyOf (rule .number) [rule .string]
  | .number => terminal .number
  | .string => terminal .literal
  | .varSection => row [keyword .var, plus (row [rule .varDecl, mark .semicolon])]
  | .varDecl =>
      anyOf
        (row
          [rule .identList, mark .colon, rule .type, opt (row [mark .equals, rule .constExpr])])
        [row [rule .identList, mark .colon, rule .type, keyword .absolute, rule .ident],
          row [rule .identList, mark .colon, keyword .array, keyword .of, rule .type],
          row
            [rule .identList, mark .colon, keyword .array, mark .openBracket,
              rule .subrangeType, mark .closeBracket, keyword .of, rule .type]]
  | .subrangeType => row [bound, mark .range, bound]
  | .type => anyOf (rule .simpleType) [rule .typeId, rule .stringType]
  | .simpleType => anyOf (rule .ordinalType) [rule .realType]
  | .ordinalType => rule .ordIdent
  | .ordIdent =>
      anyOf (builtin .shortInt)
        [builtin .smallInt, builtin .integer, builtin .byte, builtin .longInt,
          builtin .int64, builtin .word, builtin .boolean, builtin .char,
          builtin .wideChar, builtin .longWord, builtin .pchar]
  | .realType =>
      anyOf (builtin .real48)
        [builtin .real, builtin .single, builtin .double, builtin .extended,
          builtin .currency, builtin .comp]
  | .stringType => builtin .string
  | .typeId => rule .ident
  | .qualId => rule .ident
  | .identList => row [rule .ident, star (row [mark .comma, rule .ident])]
  | .ident => terminal .ident

/-- The terminals spell a right-hand side, and the trees are its parts in order. -/
inductive Derives : Ebnf → List Terminal → List Tree → Prop where
  | empty : Derives empty [] []
  | terminal (x : Terminal) : Derives (terminal x.kind) [x] [.leaf x.text]
  | rule {r : Rule} {w : List Terminal} {ts : List Tree} :
      Derives (body r) w ts → Derives (rule r) w [.node r ts]
  | seq {e f : Ebnf} {v w : List Terminal} {ts us : List Tree} :
      Derives e v ts → Derives f w us → Derives (seq e f) (v ++ w) (ts ++ us)
  | left {e f : Ebnf} {w : List Terminal} {ts : List Tree} :
      Derives e w ts → Derives (alt e f) w ts
  | right {e f : Ebnf} {w : List Terminal} {ts : List Tree} :
      Derives f w ts → Derives (alt e f) w ts
  | stop {e : Ebnf} : Derives (star e) [] []
  | more {e : Ebnf} {v w : List Terminal} {ts us : List Tree} :
      Derives e v ts → Derives (star e) w us → Derives (star e) (v ++ w) (ts ++ us)

end Ebnf

namespace Grammar

/-- `t` is a derivation tree of a rule with the given terminals as leaves. -/
def DerivationTree (r : Rule) (w : List Terminal) (t : Tree) : Prop :=
  Ebnf.Derives (.rule r) w [t]

def SpellsUnit (ks : List Token) : Prop :=
  ∃ w t, DerivationTree .goal w t ∧ w.map Terminal.kind = ks

end Grammar

end PascalUnit
