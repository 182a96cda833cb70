import Mathlib.Data.Option.Basic
import PascalUnit.Proofs.Json.Reading
import PascalUnit.Report

/-!
# Nothing is lost in JSON

The JSON report of a node tells the node, and that of a row of lexemes tells the row.
A text is read as a JSON value first; what the value stands for is then read off its
fields.  The keys tell leaves from nodes at every depth.
-/

namespace PascalUnit

/-!
## Trees
-/

namespace Tree

mutual
def ofJson? : Json → Option Tree
  | .record [("text", .text text)] => some (leaf text)
  | .record [("rule", .text name), ("children", .list items)] =>
      (Rule.ofName? name).bind fun r => (ofJsonAll? items).map (node r)
  | _ => none

def ofJsonAll? : List Json → Option (List Tree)
  | [] => some []
  | j :: js => (ofJson? j).bind fun t => (ofJsonAll? js).map (t :: ·)
end

mutual
theorem ofJson?_toJson : ∀ t : Tree, ofJson? t.toJson = some t
  | leaf text => by rw [toJson, ofJson?]
  | node r ts => by
      rw [toJson, ofJson?, Rule.ofName?_name, ofJsonAll?_toJsonAll ts]
      rfl

theorem ofJsonAll?_toJsonAll : ∀ ts : List Tree, ofJsonAll? (toJsonAll ts) = some ts
  | [] => by rw [toJsonAll, ofJsonAll?]
  | t :: ts => by
      rw [toJsonAll, ofJsonAll?, ofJson?_toJson t, ofJsonAll?_toJsonAll ts]
      rfl
end

def readJson? (s : String) : Option Tree :=
  (Json.read? s.toList).bind ofJson?

end Tree

/-!
## Lexemes
-/

def Token.ofName? (s : String) : Option Token :=
  all.find? fun t => decide (t.name = s)

theorem Token.ofName?_name (t : Token) : ofName? t.name = some t := by
  cases t with
  | keyword w => cases w <;> rfl
  | builtin b => cases b <;> rfl
  | mark m => cases m <;> rfl
  | ident | number | literal | comment | endOfInput => rfl

namespace Lexeme

def ofJson? : Json → Option Lexeme
  | .record [("token", .text name), ("text", .text text),
      ("span", .record [("start", .count start), ("end", .count stop)]),
      ("position", .record [("line", .count line), ("column", .count column)])] =>
      (Token.ofName? name).map fun token => ⟨token, text, ⟨start, stop⟩, ⟨line, column⟩⟩
  | _ => none

theorem ofJson?_toJson (x : Lexeme) : ofJson? x.toJson = some x := by
  rcases x with ⟨token, text, ⟨start, stop⟩, ⟨line, column⟩⟩
  show (Token.ofName? token.name).map _ = _
  rw [Token.ofName?_name, Option.map_some]

def readAllJson? (s : String) : Option (List Lexeme) :=
  match Json.read? s.toList with
  | some (.list items) => items.mapM ofJson?
  | _ => none

theorem mapM_ofJson?_toJson (xs : List Lexeme) : (xs.map toJson).mapM ofJson? = some xs := by
  induction xs with
  | nil => rfl
  | cons x xs ih =>
      rw [List.map_cons, List.mapM_cons, ofJson?_toJson, ih]
      rfl

end Lexeme

/-!
## Reports
-/

namespace Report

theorem readJson?_ofTree (width : Nat) (t : Tree) :
    Tree.readJson? (ofTree .treeJson width t) = some t := by
  have htext : ofTree .treeJson width t = t.toJson.renderLines := rfl
  rw [htext, Json.renderLines, Tree.readJson?, String.toList_ofList, Json.read?_spread,
    Option.bind_some, Tree.ofJson?_toJson]

theorem readJson?_render (t : Tree) : Tree.readJson? t.toJson.render = some t := by
  rw [Json.render, Tree.readJson?, String.toList_ofList, Json.read?_compact, Option.bind_some,
    Tree.ofJson?_toJson]

theorem readAllJson?_ofLexemes (xs : List Lexeme) :
    Lexeme.readAllJson? (ofLexemes .tokenJson xs) = some xs := by
  have htext : ofLexemes .tokenJson xs = (Json.list (xs.map Lexeme.toJson)).renderLines := rfl
  rw [htext, Json.renderLines, Lexeme.readAllJson?, String.toList_ofList, Json.read?_spread]
  exact Lexeme.mapM_ofJson?_toJson xs

theorem injective_of_read {α : Type} {write : α → String} {read : String → Option α}
    (h : ∀ x, read (write x) = some x) : Function.Injective write := by
  have hread : read ∘ write = some := funext h
  apply Function.Injective.of_comp
  rw [hread]
  exact Option.some_injective α

/--
Nodes are read back from their JSON texts, spread over lines or on one line, and
lexemes from theirs; so different ones have different texts.
-/
theorem json_lossless (width : Nat) :
    (∀ t : Tree, Tree.readJson? (ofTree .treeJson width t) = some t ∧
        Tree.readJson? t.toJson.render = some t) ∧
      (∀ xs : List Lexeme, Lexeme.readAllJson? (ofLexemes .tokenJson xs) = some xs) ∧
      (∀ t u : Tree, ofTree .treeJson width t = ofTree .treeJson width u ↔ t = u) ∧
      (∀ t u : Tree, t.toJson.render = u.toJson.render ↔ t = u) ∧
      ∀ xs ys : List Lexeme, ofLexemes .tokenJson xs = ofLexemes .tokenJson ys ↔ xs = ys :=
  ⟨fun t => ⟨readJson?_ofTree width t, readJson?_render t⟩, readAllJson?_ofLexemes,
    fun _ _ => (injective_of_read (readJson?_ofTree width)).eq_iff,
    fun _ _ => (injective_of_read readJson?_render).eq_iff,
    fun _ _ => (injective_of_read readAllJson?_ofLexemes).eq_iff⟩

end Report
end PascalUnit
