import PascalUnit.Files
import PascalUnit.Lexeme.Dump
import PascalUnit.Lexeme.Json
import PascalUnit.Path.Query
import PascalUnit.Tree.Drawing
import PascalUnit.Tree.Json
import PascalUnit.Tree.Parse

/-!
# Reports on a unit

A report shows one stage of a unit, its tokens or its tree, in one format.  A
report of the tree can be narrowed to the node a path leads to.

## Views

A view is a stage with a format that suits it, written with a hyphen between
them.
-/

namespace PascalUnit

inductive Stage where
  | tokens
  | tree
  deriving DecidableEq, Repr

namespace Stage

def name : Stage → String
  | tokens => "token"
  | tree => "ast"

def ofName? (s : String) : Option Stage :=
  [tokens, tree].find? fun stage => decide (stage.name = s)

end Stage

inductive Format where
  | simple
  | json
  | tag
  | drawing
  deriving DecidableEq, Repr

namespace Format

def name : Format → String
  | simple => "simple"
  | json => "json"
  | tag => "tag"
  | drawing => "treeviz"

def ofName? (s : String) : Option Format :=
  [simple, json, tag, drawing].find? fun format => decide (format.name = s)

end Format

inductive View where
  | tokenDump
  | tokenJson
  | treeTag
  | treeDrawing
  | treeJson
  deriving DecidableEq, Repr

inductive ViewError where
  | noStage (text : String)
  | unknownStage (stage : String)
  | unknownFormat (format : String)
  /-- A format asked for at one stage that suits only the other one. -/
  | wrongStage (text : String) (needed : Stage)
  deriving DecidableEq, Repr

namespace ViewError

def detail : ViewError → String
  | noStage text => text
  | unknownStage stage => stage
  | unknownFormat format => format
  | wrongStage text needed =>
      "'" ++ text ++ "' only works with the " ++ needed.name ++ " stage"

def message (e : ViewError) : String :=
  match e with
  | noStage _ => "Invalid format: " ++ e.detail
  | unknownStage _ => "Invalid stage: " ++ e.detail
  | unknownFormat _ => "Invalid format type: " ++ e.detail
  | wrongStage _ _ => "Invalid format type: " ++ e.detail

end ViewError

namespace View

def all : List View :=
  [tokenDump, tokenJson, treeTag, treeDrawing, treeJson]

def stage : View → Stage
  | tokenDump | tokenJson => .tokens
  | treeTag | treeDrawing | treeJson => .tree

def format : View → Format
  | tokenDump => .simple
  | tokenJson | treeJson => .json
  | treeTag => .tag
  | treeDrawing => .drawing

def name (v : View) : String :=
  v.stage.name ++ "-" ++ v.format.name

/-- The view of a stage in a format, or the stage that the format needs. -/
def ofParts : Stage → Format → Except Stage View
  | .tokens, .simple => .ok tokenDump
  | .tokens, .json => .ok tokenJson
  | .tokens, .tag | .tokens, .drawing => .error .tree
  | .tree, .tag => .ok treeTag
  | .tree, .drawing => .ok treeDrawing
  | .tree, .json => .ok treeJson
  | .tree, .simple => .error .tokens

/-- Reads a view; the first hyphen divides stage and format. -/
def parse (text : String) : Except ViewError View :=
  let cs := text.toList
  match cs.dropWhile fun c => decide (c ≠ '-') with
  | [] => .error (.noStage text)
  | _ :: rest =>
      let stage := String.ofList (cs.takeWhile fun c => decide (c ≠ '-'))
      let format := String.ofList rest
      match Stage.ofName? stage with
      | none => .error (.unknownStage stage)
      | some s =>
          match Format.ofName? format with
          | none => .error (.unknownFormat format)
          | some f =>
              match ofParts s f with
              | .error needed => .error (.wrongStage text needed)
              | .ok v => .ok v

end View

/-!
## Reports
-/

structure ReportOptions where
  query : Option String
  labelWidth : Nat
  deriving DecidableEq, Repr

def defaultLabelWidth : Nat := 30

inductive ReportError where
  | queryOnTokens
  | unreadable (path : String) (fault : ReadFault)
  | unparsed (error : ParseError)
  | unfound (error : LookupError)
  deriving DecidableEq, Repr

namespace ReportError

def message : ReportError → String
  | queryOnTokens => "Queries only apply to the ast stage"
  | unreadable path fault => "Failed to read " ++ path ++ ": " ++ fault.message
  | unparsed e => e.message
  | unfound e => e.message

end ReportError

namespace Report

def ofLexemes (v : View) (xs : List Lexeme) : String :=
  match v.format with
  | .json => (Json.list (xs.map Lexeme.toJson)).renderLines
  | _ => dump xs

def ofTree (v : View) (labelWidth : Nat) (t : Tree) : String :=
  match v.format with
  | .json => t.toJson.renderLines
  | .drawing => t.draw labelWidth
  | _ => t.render

def select (query : Option String) (t : Tree) : Except ReportError Tree :=
  match query with
  | none => .ok t
  | some path =>
      match t.lookup path with
      | .error e => .error (.unfound e)
      | .ok u => .ok u

def ofSource (v : View) (options : ReportOptions) (source : String) :
    Except ReportError String :=
  match v.stage with
  | .tokens =>
      if options.query.isSome then .error .queryOnTokens
      else
        match lexemes source.toList with
        | .error e => .error (.unparsed (.lexical e))
        | .ok xs => .ok (ofLexemes v xs)
  | .tree =>
      match Tree.parse source.toList with
      | .error e => .error (.unparsed e)
      | .ok t =>
          match select options.query t with
          | .error e => .error e
          | .ok u => .ok (ofTree v options.labelWidth u)

def ofFile (files : Files) (v : View) (options : ReportOptions) (path : String) :
    Except ReportError String :=
  match files.read path with
  | .error fault => .error (.unreadable path fault)
  | .ok source => ofSource v options source

end Report
end PascalUnit
