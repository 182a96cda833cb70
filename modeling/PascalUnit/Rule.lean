/-!
# Productions of the unit grammar

A rule labels the inner nodes of a tree, and paths address nodes by it.
-/

namespace PascalUnit

inductive Rule where
  | goal
  | unit
  | interfaceSection
  | interfaceDecl
  | exportedHeading
  | functionHeading
  | procedureHeading
  | formalParms
  | formalParm
  | parameter
  | parameterType
  | returnType
  | implementationSection
  | declSection
  | procedureDeclSection
  | procedureDecl
  | functionDecl
  | block
  | statement
  | usesClause
  | constSection
  | constDecl
  | typedConstant
  | constExpr
  | number
  | string
  | varSection
  | varDecl
  | subrangeType
  | type
  | simpleType
  | ordinalType
  | ordIdent
  | realType
  | stringType
  | typeId
  | qualId
  | identList
  | ident
  deriving DecidableEq, Repr

namespace Rule

def all : List Rule :=
  [goal, unit, interfaceSection, interfaceDecl, exportedHeading,
    functionHeading, procedureHeading, formalParms, formalParm, parameter,
    parameterType, returnType, implementationSection, declSection,
    procedureDeclSection, procedureDecl, functionDecl, block, statement,
    usesClause, constSection, constDecl, typedConstant, constExpr, number,
    string, varSection, varDecl, subrangeType, type, simpleType, ordinalType,
    ordIdent, realType, stringType, typeId, qualId, identList, ident]

def name : Rule → String
  | goal => "goal"
  | unit => "unit"
  | interfaceSection => "interfaceSection"
  | interfaceDecl => "interfaceDecl"
  | exportedHeading => "exportedHeading"
  | functionHeading => "functionHeading"
  | procedureHeading => "procedureHeading"
  | formalParms => "formalParms"
  | formalParm => "formalParm"
  | parameter => "parameter"
  | parameterType => "parameterType"
  | returnType => "returnType"
  | implementationSection => "implementationSection"
  | declSection => "declSection"
  | procedureDeclSection => "procedureDeclSection"
  | procedureDecl => "procedureDecl"
  | functionDecl => "functionDecl"
  | block => "block"
  | statement => "statement"
  | usesClause => "usesClause"
  | constSection => "constSection"
  | constDecl => "constDecl"
  | typedConstant => "typedConstant"
  | constExpr => "constExpr"
  | number => "number"
  | string => "string"
  | varSection => "varSection"
  | varDecl => "varDecl"
  | subrangeType => "subrangeType"
  | type => "type"
  | simpleType => "simpleType"
  | ordinalType => "ordinalType"
  | ordIdent => "ordIdent"
  | realType => "realType"
  | stringType => "stringType"
  | typeId => "typeId"
  | qualId => "qualId"
  | identList => "identList"
  | ident => "ident"

def ofName? (s : String) : Option Rule :=
  all.find? fun r => decide (r.name = s)

def rank (r : Rule) : Nat :=
  all.idxOf r

/-!
## Names determine rules
-/

theorem mem_all (r : Rule) : r ∈ all := by
  cases r <;> decide

@[simp] theorem ofName?_name (r : Rule) : ofName? r.name = some r := by
  cases r <;> rfl

theorem name_of_ofName? {s : String} {r : Rule} (h : ofName? s = some r) :
    r.name = s := by
  have hfound := List.find?_some h
  exact of_decide_eq_true hfound

theorem ofName?_eq_some_iff {s : String} {r : Rule} :
    ofName? s = some r ↔ r.name = s := by
  constructor
  · intro h
    exact name_of_ofName? h
  · intro h
    rw [← h, ofName?_name]

end Rule
end PascalUnit
