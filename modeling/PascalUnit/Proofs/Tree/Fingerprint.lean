import PascalUnit.Proofs.Tree.Reprint

/-!
# The bracketed text determines the tree

Leaves stand unescaped in the bracketed text of a tree, parentheses and literals
with spaces among them.  It can be taken apart all the same when every leaf is the
text of a token.  A leaf ends where the scan of lexemes would end it, since a space
or a closing parenthesis continues no token; the parenthesis that opens a node is
followed by a letter, and a leaf that is a parenthesis is not.

## Cancellation

Two bracketed texts that agree, whatever stands behind them, come from the same
tree: `spell_cancel` for trees and `spellAll_cancel` for the children of a node.
-/

namespace PascalUnit
namespace Tree

/-- What may stand behind a tree in a bracketed text: nothing, a space or a parenthesis. -/
def Delimited (rest : List Char) : Prop :=
  ∀ c ∈ rest.head?, c = ' ' ∨ c = ')'

/-- Every leaf is the text of a token. -/
def Legible (t : Tree) : Prop :=
  ∀ text ∈ t.leafTexts, ∃ token, Scan.Spells token text.toList

theorem legible_node_cons {r : Rule} {t : Tree} {ts : List Tree} :
    (node r (t :: ts)).Legible ↔ t.Legible ∧ (node r ts).Legible := by
  simp only [Legible, leafTexts, leafTextsAll, List.forall_mem_append]

theorem endsBefore_of_delimited {rest : List Char} (h : Delimited rest) (token : Token) :
    Scan.EndsBefore token rest := by
  cases rest with
  | nil => exact Scan.endsBefore_nil token
  | cons c rest =>
      rcases h c rfl with rfl | rfl
      · exact Scan.endsBefore_space token rest
      · exact Scan.endsBefore_of_head (by decide) (by decide) (by decide) (by decide) token rest

theorem delimited_spellAll (ts : List Tree) (rest : List Char) :
    Delimited (spellAll ts ++ ')' :: rest) := by
  intro c hc
  cases ts with
  | nil =>
      cases hc
      exact Or.inr rfl
  | cons t ts =>
      cases hc
      exact Or.inl rfl

/-!
## Names of rules
-/

theorem isAlpha_name (r : Rule) : r.name.toList.all Char.isAlpha = true := by
  cases r <;> rfl

theorem exists_first_letter (r : Rule) (rest : List Char) :
    ∃ c tail, r.name.toList ++ rest = c :: tail ∧ c.isAlpha = true := by
  have hne : r.name.toList ≠ [] := by
    cases r <;> decide
  rcases List.exists_cons_of_ne_nil hne with ⟨c, name, hname⟩
  have hletter := List.all_eq_true.mp (isAlpha_name r) c (by simp [hname])
  exact ⟨c, name ++ rest, by rw [hname, List.cons_append], hletter⟩

theorem name_cancel {r q : Rule} {a b : List Char} (ha : Delimited a) (hb : Delimited b)
    (h : r.name.toList ++ a = q.name.toList ++ b) : r = q ∧ a = b := by
  have hends : ∀ {rest : List Char}, Delimited rest → ∀ c ∈ rest.head?, c.isAlpha = false := by
    intro rest hrest c hc
    rcases hrest c hc with rfl | rfl <;> rfl
  rcases Scan.takeWhile_eq_of_ends (List.all_eq_true.mp (isAlpha_name r)) (hends ha) with
    ⟨htake, hdrop⟩
  rcases Scan.takeWhile_eq_of_ends (List.all_eq_true.mp (isAlpha_name q)) (hends hb) with
    ⟨htake', hdrop'⟩
  rw [h] at htake hdrop
  have hname : r.name = q.name := String.toList_inj.mp (htake.symm.trans htake')
  have hrule : some r = some q := by
    rw [← Rule.ofName?_name r, ← Rule.ofName?_name q, hname]
  exact ⟨Option.some.inj hrule, hdrop.symm.trans hdrop'⟩

/-!
## The front of a bracketed text

The scan of lexemes finds the first leaf, or the parenthesis of a node.
-/

theorem front_leaf {text : String} {token : Token} (h : Scan.Spells token text.toList)
    {rest : List Char} (hrest : Delimited rest) :
    Scan.front (spell (leaf text) ++ rest) = .lexeme token text.toList rest :=
  Scan.front_eq_lexeme_iff.mpr ⟨rfl, h, endsBefore_of_delimited hrest token⟩

theorem front_node (r : Rule) (ts : List Tree) (rest : List Char) :
    Scan.front (spell (node r ts) ++ rest) =
      .lexeme (.mark .openParen) ['('] (r.name.toList ++ (spellAll ts ++ ')' :: rest)) := by
  refine Scan.front_eq_lexeme_iff.mpr ⟨by simp [spell], rfl, ?_⟩
  show (r.name.toList ++ (spellAll ts ++ ')' :: rest)).head? ≠ some '*'
  rcases exists_first_letter r (spellAll ts ++ ')' :: rest) with ⟨c, tail, hname, hletter⟩
  rw [hname]
  intro hstar
  have hc : c = '*' := Option.some.inj hstar
  rw [hc] at hletter
  cases hletter

/-- A leaf is no node, not even when it is a parenthesis. -/
theorem spell_leaf_ne_node {text : String} (h : (leaf text).Legible) {r : Rule}
    {ts : List Tree} {a b : List Char} (ha : Delimited a) :
    spell (leaf text) ++ a ≠ spell (node r ts) ++ b := by
  intro heq
  rcases h text List.mem_cons_self with ⟨token, hspells⟩
  have hfront := front_leaf hspells ha
  rw [heq, front_node] at hfront
  -- then the name of the rule would stand where the leaf ends
  have hrest : r.name.toList ++ (spellAll ts ++ ')' :: b) = a := by
    injection hfront
  rcases exists_first_letter r (spellAll ts ++ ')' :: b) with ⟨c, tail, hname, hletter⟩
  rw [hname] at hrest
  have hhead : a.head? = some c := by
    rw [← hrest]
    rfl
  rcases ha c hhead with rfl | rfl <;> cases hletter

/-!
## Cancellation
-/

mutual
theorem spell_cancel : ∀ {t u : Tree} {a b : List Char}, t.Legible → u.Legible →
    Delimited a → Delimited b → spell t ++ a = spell u ++ b → t = u ∧ a = b
  | leaf text, leaf text', a, b, ht, hu, ha, hb, h => by
      rcases ht text List.mem_cons_self with ⟨token, hspells⟩
      rcases hu text' List.mem_cons_self with ⟨token', hspells'⟩
      have hfront := front_leaf hspells ha
      rw [h, front_leaf hspells' hb] at hfront
      injection hfront with _ htext hrest
      exact ⟨congrArg leaf (String.toList_inj.mp htext.symm), hrest.symm⟩
  | leaf text, node r us, a, b, ht, _, ha, _, h => absurd h (spell_leaf_ne_node ht ha)
  | node r ts, leaf text, a, b, _, hu, _, hb, h => absurd h.symm (spell_leaf_ne_node hu hb)
  | node r ts, node q us, a, b, ht, hu, _, _, h => by
      have hfront := front_node r ts a
      rw [h, front_node] at hfront
      injection hfront with _ _ hrest
      rcases name_cancel (delimited_spellAll us b) (delimited_spellAll ts a) hrest with
        ⟨hrule, hchildren⟩
      rcases spellAll_cancel ht hu hchildren.symm with ⟨hts, hab⟩
      exact ⟨by rw [hrule, hts], hab⟩

theorem spellAll_cancel : ∀ {r q : Rule} {ts us : List Tree} {a b : List Char},
    (node r ts).Legible → (node q us).Legible →
      spellAll ts ++ ')' :: a = spellAll us ++ ')' :: b → ts = us ∧ a = b
  | _, _, [], [], a, b, _, _, h => ⟨rfl, List.tail_eq_of_cons_eq h⟩
  | _, _, [], u :: us, a, b, _, _, h => by
      have hhead : ')' = ' ' := List.head_eq_of_cons_eq h
      exact absurd hhead (by decide)
  | _, _, t :: ts, [], a, b, _, _, h => by
      have hhead : ' ' = ')' := List.head_eq_of_cons_eq h
      exact absurd hhead (by decide)
  | _, _, t :: ts, u :: us, a, b, ht, hu, h => by
      rw [legible_node_cons] at ht hu
      have hchildren : spell t ++ (spellAll ts ++ ')' :: a) =
          spell u ++ (spellAll us ++ ')' :: b) := by
        have htail := List.tail_eq_of_cons_eq h
        simpa using htail
      rcases spell_cancel ht.1 hu.1 (delimited_spellAll ts a) (delimited_spellAll us b)
        hchildren with ⟨rfl, hrest⟩
      rcases spellAll_cancel ht.2 hu.2 hrest with ⟨rfl, hab⟩
      exact ⟨rfl, hab⟩
end

/-!
## Parsed units
-/

theorem legible_of_parse {cs : List Char} {t : Tree} (h : parse cs = .ok t) : t.Legible := by
  rcases parse_eq_ok_iff.mp h with ⟨tokens, hscan, hread⟩
  intro text htext
  rw [leafTexts_of_derivationTree (ofTokens_eq_ok_iff.mp hread).1] at htext
  rcases List.mem_map.mp htext with ⟨x, hx, rfl⟩
  exact ⟨x.kind, (canonical_of_placedTokens hscan x hx).spells⟩

/-- Parsed units with the same bracketed text are the same tree. -/
theorem eq_of_render_eq {cs cs' : List Char} {t u : Tree} (ht : parse cs = .ok t)
    (hu : parse cs' = .ok u) (h : t.render = u.render) : t = u := by
  have hspell : spell t ++ [] = spell u ++ [] := by
    rw [List.append_nil, List.append_nil]
    exact String.ofList_inj.mp h
  have hend : Delimited [] := by simp [Delimited]
  exact (spell_cancel (legible_of_parse ht) (legible_of_parse hu) hend hend hspell).1

/-- The unit `unit a;interface const b='(ident c) )';procedure d();.` -/
def mimicking : Tree :=
  .node .goal
    [.node .unit
      [.leaf "UNIT", .node .ident [.leaf "a"], .leaf ";",
        .node .interfaceSection
          [.leaf "INTERFACE",
            .node .interfaceDecl
              [.node .constSection
                [.leaf "CONST",
                  .node .constDecl
                    [.node .ident [.leaf "b"], .leaf "=",
                      .node .constExpr [.node .string [.leaf "'(ident c) )'"]]],
                  .leaf ";"]],
            .node .interfaceDecl
              [.node .exportedHeading
                [.node .procedureHeading
                  [.leaf "PROCEDURE", .node .ident [.leaf "d"],
                    .node .formalParms [.leaf "(", .leaf ")"]],
                  .leaf ";"]]],
        .leaf "."]]

theorem eq_of_render_eq_mimicking :
    ∃ t u, parse "unit a;interface const b='(ident c) )';procedure d();.".toList = .ok t ∧
      parse "UNIT a; INTERFACE CONST b = '(ident c) )'; PROCEDURE d( ); .".toList = .ok u ∧
      t.render = u.render ∧ t = u := by
  have ht : parse "unit a;interface const b='(ident c) )';procedure d();.".toList =
      .ok mimicking := by decide +kernel
  have hu : parse "UNIT a; INTERFACE CONST b = '(ident c) )'; PROCEDURE d( ); .".toList =
      .ok mimicking := by decide +kernel
  exact ⟨mimicking, mimicking, ht, hu, rfl, eq_of_render_eq ht hu rfl⟩

end Tree
end PascalUnit
