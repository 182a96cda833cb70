import Mathlib.Data.List.Chain
import PascalUnit.Proofs.Lexeme.Faults
import PascalUnit.Proofs.Tree.Fingerprint
import PascalUnit.Proofs.Tree.Traversal
import PascalUnit.Tree.Drawing

/-!
# The drawing of a tree, line by line

A drawing has one line for each place of a tree.  What the line shows is said here of
the place alone: a cell for each place above it, a connector, and a caption.  Cells and
connectors tell whether a sibling follows.  The drawing is shown to be made of these
lines, in the order of the walk, as long as no leaf breaks a line of its own.

## Shape

The margin of a line, its cells and its connector, is recognised whatever the caption
is, so it tells the depth of the line.  The depths tell the places: a line continues the
place of the line above at the depth it has.
-/

namespace PascalUnit
namespace Tree

/-- No sibling follows the subtree at a place; none follows the root. -/
def isLastAt (t : Tree) (o : List Nat) : Bool :=
  match o.getLast? with
  | none => true
  | some i => decide ((t.at? o.dropLast).map (fun u => u.children.length) = some (i + 1))

def LineFeedFree (t : Tree) : Prop :=
  ∀ text ∈ t.leafTexts, '\n' ∉ text.toList

namespace Outline

/-- A text of at most `width` characters, or as many of a longer one and three points. -/
def clipped (width : Nat) (text : String) : List Char :=
  if text.length ≤ width then text.toList else text.toList.take width ++ "...".toList

def caption (width : Nat) : Tree → List Char
  | .leaf text => clipped width text
  | .node r ts => r.name.toList ++ ": ".toList ++ clipped width (node r ts).text

def cellAt (t : Tree) (o : List Nat) : List Char :=
  if t.isLastAt o then "  ".toList else "│ ".toList

def connectorAt (t : Tree) (o : List Nat) : List Char :=
  if t.isLastAt o then "└─".toList else "├─".toList

def cellsAt (t : Tree) (o : List Nat) : List Char :=
  (List.range o.length).flatMap fun j => cellAt t (o.take j)

def marginAt (t : Tree) (o : List Nat) : List Char :=
  cellsAt t o ++ connectorAt t o

def lineAt (width : Nat) (t : Tree) (o : List Nat) : List Char :=
  marginAt t o ++ ' ' :: ((t.at? o).map (caption width)).getD []

/-!
## Lines of a drawing
-/

theorem shorten_eq (width : Nat) (text : String) :
    Drawing.shorten width text.toList = clipped width text := by
  rw [Drawing.shorten, clipped, String.length_toList]
  by_cases hshort : text.length ≤ width
  · rw [if_pos hshort, if_neg (Nat.not_lt.mpr hshort)]
  · rw [if_neg hshort, if_pos (Nat.not_le.mp hshort)]
    rfl

theorem label_eq (width : Nat) (t : Tree) : Drawing.label width t = caption width t := by
  cases t with
  | leaf text => exact shorten_eq width text
  | node r ts =>
      rw [Drawing.label, caption, shorten_eq]
      rfl

theorem cellsAt_child (t : Tree) (o : List Nat) (i : Nat) :
    cellsAt t (o ++ [i]) = cellsAt t o ++ cellAt t o := by
  have htake : ∀ j ∈ List.range o.length, cellAt t ((o ++ [i]).take j) = cellAt t (o.take j) := by
    intro j hj
    rw [List.take_append_of_le_length (Nat.le_of_lt (List.mem_range.mp hj))]
  rw [cellsAt, List.length_append, List.length_singleton, List.range_succ, List.flatMap_append,
    List.flatMap_congr htake, List.flatMap_singleton, List.take_left, cellsAt]

theorem isLastAt_child {t u : Tree} {o : List Nat} (h : t.at? o = some u) (i : Nat) :
    t.isLastAt (o ++ [i]) = decide (u.children.length = i + 1) := by
  simp [isLastAt, h]

theorem line_eq {t u : Tree} {o : List Nat} (h : t.at? o = some u) (width : Nat) :
    Drawing.line width (cellsAt t o) (t.isLastAt o) u = lineAt width t o ++ ['\n'] := by
  have hconnector : Drawing.connector (t.isLastAt o) = connectorAt t o := rfl
  rw [Drawing.line, hconnector, label_eq, lineAt, h, marginAt]
  simp

mutual
/-- The lines of a subtree are those of the places at or below its own. -/
theorem lines_eq (width : Nat) (t : Tree) : ∀ {u : Tree} {o : List Nat}, t.at? o = some u →
    Drawing.lines width (cellsAt t o) (t.isLastAt o) u =
      u.places.flatMap fun p => lineAt width t (o ++ p) ++ ['\n']
  | leaf text, o, h => by
      rw [Drawing.lines, line_eq h, places, List.flatMap_singleton, List.append_nil]
  | node r ts, o, h => by
      have hcell : Drawing.cell (t.isLastAt o) = cellAt t o := rfl
      rw [Drawing.lines, line_eq h, hcell, places, List.flatMap_cons, List.append_nil,
        linesAll_eq width t h (@List.drop_zero _ ts)]

theorem linesAll_eq (width : Nat) (t : Tree) : ∀ {r : Rule} {us ts : List Tree} {o : List Nat}
    {i : Nat}, t.at? o = some (node r us) → us.drop i = ts →
      Drawing.linesAll width (cellsAt t o ++ cellAt t o) ts =
        (placesFrom i ts).flatMap fun p => lineAt width t (o ++ p) ++ ['\n']
  | r, us, [], o, i, h, hdrop => rfl
  | r, us, c :: ts, o, i, h, hdrop => by
      have hrest : us.drop (i + 1) = ts := by
        rw [← List.tail_drop, hdrop]
        rfl
      have hchild : t.at? (o ++ [i]) = some c := by
        have hat : us[i]? = some c := by
          rw [← List.head?_drop, hdrop]
          rfl
        simp [at?_append, h, children, hat]
      -- the child is drawn as a last one when no sibling is left behind it
      have hlast : ts.isEmpty = t.isLastAt (o ++ [i]) := by
        have hlength := congrArg List.length hdrop
        rw [List.length_drop, List.length_cons] at hlength
        rw [isLastAt_child h, children, Bool.eq_iff_iff, List.isEmpty_iff_length_eq_zero,
          decide_eq_true_eq]
        omega
      rw [Drawing.linesAll, hlast, ← cellsAt_child t o i, lines_eq width t hchild, cellsAt_child,
        linesAll_eq width t h hrest, placesFrom, List.flatMap_append, List.flatMap_map]
      simp only [List.append_assoc, List.singleton_append]
end

theorem draw_eq (width : Nat) (t : Tree) :
    (t.draw width).toList = t.places.flatMap fun o => lineAt width t o ++ ['\n'] := by
  have hlines := lines_eq width t (at?_nil t)
  simp only [List.nil_append] at hlines
  rw [Tree.draw, String.toList_ofList, ← hlines]
  rfl

/-!
## No other line feeds
-/

theorem leafTextsAll_eq (ts : List Tree) : leafTextsAll ts = ts.flatMap leafTexts := by
  induction ts with
  | nil => rfl
  | cons t ts ih => rw [leafTextsAll, ih, List.flatMap_cons]

theorem mem_leafTexts_of_at? {t u : Tree} {o : List Nat} (h : t.at? o = some u) {text : String}
    (htext : text ∈ u.leafTexts) : text ∈ t.leafTexts := by
  induction o generalizing t with
  | nil =>
      cases h
      exact htext
  | cons i o ih =>
      rcases at?_cons_eq_some_iff.mp h with ⟨c, hc, hcu⟩
      cases t with
      | leaf text => cases hc
      | node r ts =>
          rw [leafTexts, leafTextsAll_eq, List.mem_flatMap]
          exact ⟨c, List.mem_of_getElem? hc, ih hcu⟩

theorem mem_of_mem_intercalate {c : Char} {texts : List String}
    (h : c ∈ (" ".intercalate texts).toList) : c = ' ' ∨ ∃ text ∈ texts, c ∈ text.toList := by
  induction texts with
  | nil => cases h
  | cons text texts ih =>
      cases texts with
      | nil =>
          right
          exact ⟨text, List.mem_cons_self, by simpa using h⟩
      | cons text' texts =>
          rw [String.intercalate_cons_cons, String.toList_append, String.toList_append] at h
          rcases List.mem_append.mp h with h | h
          · rcases List.mem_append.mp h with h | h
            · exact Or.inr ⟨text, List.mem_cons_self, h⟩
            · exact Or.inl (List.mem_singleton.mp h)
          · rcases ih h with hspace | ⟨text'', hmem, hc⟩
            · exact Or.inl hspace
            · exact Or.inr ⟨text'', List.mem_cons_of_mem _ hmem, hc⟩

theorem lineFeed_not_mem_clipped {width : Nat} {text : String} (h : '\n' ∉ text.toList) :
    '\n' ∉ clipped width text := by
  intro hmem
  rw [clipped] at hmem
  split at hmem
  · exact h hmem
  · rcases List.mem_append.mp hmem with hmem | hmem
    · exact h (List.mem_of_mem_take hmem)
    · exact absurd hmem (by decide)

theorem lineFeed_not_mem_caption {width : Nat} {t : Tree} (h : t.LineFeedFree) :
    '\n' ∉ caption width t := by
  cases t with
  | leaf text => exact lineFeed_not_mem_clipped (h text List.mem_cons_self)
  | node r ts =>
      have hname : '\n' ∉ r.name.toList ++ ": ".toList := by
        cases r <;> decide
      have htext : '\n' ∉ (node r ts).text.toList := by
        intro hmem
        rcases mem_of_mem_intercalate hmem with hspace | ⟨text, htext, hc⟩
        · cases hspace
        · exact h text htext hc
      rw [caption, List.mem_append]
      rintro (hmem | hmem)
      · exact hname hmem
      · exact lineFeed_not_mem_clipped htext hmem

/-!
## Margins
-/

/-- The characters of cells; no connector begins with one. -/
def isCell (c : Char) : Bool :=
  c = ' ' || c = '│'

def readMargin (line : List Char) : List Char :=
  line.takeWhile isCell ++ (line.dropWhile isCell).take 2

theorem isCell_cellsAt (t : Tree) (o : List Nat) : ∀ c ∈ cellsAt t o, isCell c = true := by
  have hall : ∀ p, (cellAt t p).all isCell = true := by
    intro p
    rw [cellAt]
    split <;> rfl
  intro c hc
  rcases List.mem_flatMap.mp hc with ⟨j, _, hcell⟩
  exact List.all_eq_true.mp (hall _) c hcell

theorem length_cellsAt (t : Tree) (o : List Nat) : (cellsAt t o).length = 2 * o.length := by
  have htwo : ∀ j, (cellAt t (o.take j)).length = 2 := by
    intro j
    rw [cellAt]
    split <;> rfl
  simp [cellsAt, htwo, Nat.mul_comm]

theorem exists_connectorAt (t : Tree) (o : List Nat) :
    ∃ c, connectorAt t o = [c, '─'] ∧ isCell c = false := by
  rw [connectorAt]
  split
  · exact ⟨'└', rfl, rfl⟩
  · exact ⟨'├', rfl, rfl⟩

/-- The caption of a line does not obscure its margin. -/
theorem readMargin_lineAt (width : Nat) (t : Tree) (o : List Nat) :
    readMargin (lineAt width t o) = marginAt t o := by
  rcases exists_connectorAt t o with ⟨c, hconnector, hc⟩
  have hends : ∀ d ∈ (connectorAt t o ++ ' ' :: ((t.at? o).map (caption width)).getD []).head?,
      isCell d = false := by
    intro d hd
    rw [hconnector] at hd
    cases hd
    exact hc
  rcases Scan.takeWhile_eq_of_ends (isCell_cellsAt t o) hends with ⟨htake, hdrop⟩
  rw [readMargin, lineAt, marginAt, List.append_assoc, htake, hdrop, hconnector]
  rfl

theorem lineFeed_not_mem_marginAt (t : Tree) (o : List Nat) : '\n' ∉ marginAt t o := by
  rcases exists_connectorAt t o with ⟨c, hconnector, _⟩
  rw [marginAt, List.mem_append]
  rintro (hmem | hmem)
  · have hcell := isCell_cellsAt t o _ hmem
    cases hcell
  · rw [connectorAt] at hmem
    split at hmem <;> exact absurd hmem (by decide)

theorem lineFeed_not_mem_lineAt {t : Tree} (h : t.LineFeedFree) (width : Nat) (o : List Nat) :
    '\n' ∉ lineAt width t o := by
  rw [lineAt, List.mem_append, List.mem_cons]
  rintro (hmem | hspace | hmem)
  · exact lineFeed_not_mem_marginAt t o hmem
  · cases hspace
  · cases hat : t.at? o with
    | none =>
        rw [hat] at hmem
        cases hmem
    | some u =>
        rw [hat] at hmem
        refine lineFeed_not_mem_caption ?_ hmem
        intro text htext
        exact h text (mem_leafTexts_of_at? hat htext)

theorem splitOn_lines {rows : List (List Char)} (h : ∀ row ∈ rows, '\n' ∉ row) :
    (rows.flatMap fun row => row ++ ['\n']).splitOn '\n' = rows ++ [[]] := by
  have hjoined : (rows.flatMap fun row => row ++ ['\n']) = ['\n'].intercalate (rows ++ [[]]) := by
    clear h
    induction rows with
    | nil => rfl
    | cons row rows ih =>
        rw [List.flatMap_cons, ih]
        cases rows with
        | nil => simp
        | cons row' rows => simp
  rw [hjoined]
  apply List.splitOn_intercalate
  · intro row hrow
    rcases List.mem_append.mp hrow with hrow | hrow
    · exact h row hrow
    · simp [List.mem_singleton.mp hrow]
  · simp

theorem splitOn_draw {t : Tree} (h : t.LineFeedFree) (width : Nat) :
    (t.draw width).toList.splitOn '\n' = t.places.map (lineAt width t) ++ [[]] := by
  rw [draw_eq, ← splitOn_lines, List.flatMap_map]
  intro row hrow
  rcases List.mem_map.mp hrow with ⟨o, _, rfl⟩
  exact lineFeed_not_mem_lineAt h width o

/-!
## Depths and places
-/

/--
The place of a line at a depth, below a line of place `o`: it is in a row with a
child on the way to `o`, or else the first child of `o`.
-/
def nextPlace (o : List Nat) : Nat → List Nat
  | 0 => []
  | d + 1 => o.take d ++ [(o[d]?.map (· + 1)).getD 0]

def placesOfDepths (o : List Nat) : List Nat → List (List Nat)
  | [] => []
  | d :: ds => nextPlace o d :: placesOfDepths (nextPlace o d) ds

/-- A place follows another one when its depth tells it. -/
def Follows (o p : List Nat) : Prop :=
  p = nextPlace o p.length

theorem Follows.cons {o p : List Nat} (h : Follows o p) (hne : p ≠ []) (i : Nat) :
    Follows (i :: o) (i :: p) := by
  cases hlength : p.length with
  | zero => exact absurd (List.eq_nil_of_length_eq_zero hlength) hne
  | succ d =>
      rw [Follows, hlength, nextPlace] at h
      rw [Follows, List.length_cons, hlength, nextPlace, List.take_succ_cons,
        List.getElem?_cons_succ, List.cons_append, ← h]

theorem follows_sibling (o : List Nat) (i : Nat) : Follows (i :: o) [i + 1] := rfl

theorem placesOfDepths_of_isChain {o : List Nat} {ps : List (List Nat)}
    (h : List.IsChain Follows (o :: ps)) : placesOfDepths o (ps.map List.length) = ps := by
  induction ps generalizing o with
  | nil => rfl
  | cons p ps ih =>
      rw [List.isChain_cons_cons] at h
      have hnext : nextPlace o p.length = p := h.1.symm
      rw [List.map_cons, placesOfDepths, hnext, ih h.2]

theorem head?_placesFrom {i : Nat} {ts : List Tree} :
    ∀ p ∈ (placesFrom i ts).head?, p = [i] := by
  intro p hp
  cases ts with
  | nil => cases hp
  | cons t ts =>
      rw [placesFrom, places_eq] at hp
      cases hp
      rfl

theorem exists_places_eq (t : Tree) : ∃ ps, t.places = [] :: ps ∧ ∀ p ∈ ps, p ≠ [] := by
  refine ⟨_, places_eq t, ?_⟩
  intro p hp hnil
  rcases List.mem_flatMap.mp hp with ⟨x, _, hmem⟩
  rcases List.mem_map.mp hmem with ⟨below, _, hcons⟩
  rw [hnil] at hcons
  cases hcons

theorem isChain_map_cons {o : List Nat} {ps : List (List Nat)}
    (h : List.IsChain Follows (o :: ps)) (hne : ∀ p ∈ ps, p ≠ []) (i : Nat) :
    List.IsChain Follows ((o :: ps).map (i :: ·)) := by
  induction ps generalizing o with
  | nil => exact List.isChain_singleton _
  | cons p ps ih =>
      rw [List.isChain_cons_cons] at h
      rw [List.forall_mem_cons] at hne
      rw [List.map_cons, List.map_cons, List.isChain_cons_cons]
      exact ⟨h.1.cons hne.1 i, ih h.2 hne.2⟩

mutual
/-- Every place of a tree follows the one listed before it. -/
theorem isChain_places : ∀ t : Tree, List.IsChain Follows t.places
  | leaf text => List.isChain_singleton _
  | node r ts => by
      rw [places, List.isChain_cons]
      refine ⟨?_, isChain_placesFrom 0 ts⟩
      intro p hp
      rw [head?_placesFrom p hp]
      rfl

theorem isChain_placesFrom (i : Nat) : ∀ ts : List Tree, List.IsChain Follows (placesFrom i ts)
  | [] => List.isChain_nil
  | t :: ts => by
      rw [placesFrom, List.isChain_append]
      refine ⟨?_, isChain_placesFrom (i + 1) ts, ?_⟩
      · rcases exists_places_eq t with ⟨ps, hplaces, hne⟩
        have hchain := isChain_places t
        rw [hplaces] at hchain ⊢
        exact isChain_map_cons hchain hne i
      · intro o ho p hp
        rcases List.mem_map.mp (List.mem_of_getLast? ho) with ⟨below, _, rfl⟩
        rw [head?_placesFrom p hp]
        exact follows_sibling below i
end

/-- The depths of all places of a tree tell the places. -/
theorem placesOfDepths_places (t : Tree) : placesOfDepths [] (t.places.map List.length) = t.places := by
  rcases exists_places_eq t with ⟨ps, hplaces, _⟩
  have hchain := isChain_places t
  rw [hplaces] at hchain ⊢
  rw [List.map_cons, placesOfDepths, List.length_nil, nextPlace, placesOfDepths_of_isChain hchain]

def readMargins (drawing : String) : List (List Char) :=
  (drawing.toList.splitOn '\n').dropLast.map readMargin

def readPlaces (drawing : String) : List (List Nat) :=
  placesOfDepths [] ((readMargins drawing).map fun margin => margin.length / 2 - 1)

theorem readMargins_draw {t : Tree} (h : t.LineFeedFree) (width : Nat) :
    readMargins (t.draw width) = t.places.map (marginAt t) := by
  rw [readMargins, splitOn_draw h, List.dropLast_concat, List.map_map]
  exact List.map_congr_left fun o _ => readMargin_lineAt width t o

theorem length_marginAt (t : Tree) (o : List Nat) : (marginAt t o).length / 2 - 1 = o.length := by
  rcases exists_connectorAt t o with ⟨c, hconnector, _⟩
  rw [marginAt, hconnector, List.length_append, length_cellsAt, List.length_cons,
    List.length_singleton]
  omega

theorem readPlaces_draw {t : Tree} (h : t.LineFeedFree) (width : Nat) :
    readPlaces (t.draw width) = t.places := by
  have hdepths : (t.places.map (marginAt t)).map (fun margin => margin.length / 2 - 1) =
      t.places.map List.length := by
    rw [List.map_map]
    exact List.map_congr_left fun o _ => length_marginAt t o
  rw [readPlaces, readMargins_draw h, hdepths, placesOfDepths_places]

end Outline

/-!
## Parsed units
-/

theorem lineFeed_not_mem_of_spells {token : Token} {text : List Char}
    (h : Scan.Spells token text) : '\n' ∉ text := by
  intro hmem
  cases token with
  | keyword k =>
      have hspelling : '\n' ∈ k.spelling.toList := by
        rw [← show text.map Char.toUpper = k.spelling.toList from h]
        exact List.mem_map.mpr ⟨'\n', hmem, rfl⟩
      cases k <;> exact absurd hspelling (by decide)
  | builtin b =>
      rw [show text = b.spelling.toList from h] at hmem
      cases b <;> exact absurd hmem (by decide)
  | ident =>
      have hpart := Scan.isNamePart_of_isName h.1 _ hmem
      cases hpart
  | number =>
      have hdigit := h.2 _ hmem
      cases hdigit
  | literal =>
      rcases h with ⟨value, hvalue, rfl⟩
      rw [Scan.quoted, List.mem_cons, List.mem_append, Scan.mem_doubled, List.mem_singleton] at hmem
      rcases hmem with hquote | hmem | hquote
      · cases hquote
      · exact (hvalue _ hmem).2 rfl
      · cases hquote
  | mark m =>
      rw [show text = m.spelling.toList from h] at hmem
      cases m <;> exact absurd hmem (by decide)
  | comment | endOfInput => cases h

theorem lineFeedFree_of_parse {cs : List Char} {t : Tree} (h : parse cs = .ok t) :
    t.LineFeedFree := by
  intro text htext
  rcases legible_of_parse h text htext with ⟨token, hspells⟩
  exact lineFeed_not_mem_of_spells hspells

/-!
## Drawings
-/

/-- A drawing shows the tree it was made from. -/
structure Mirrored (t : Tree) (width : Nat) : Prop where
  /-- The walk meets what stands at the places, in order. -/
  walked : t.walk.map (fun x => (x.1, some x.2)) = t.places.map fun o => (o.length, t.at? o)
  /-- There is a line for each place, and nothing behind the last line. -/
  lines : (t.draw width).toList.splitOn '\n' = t.places.map (Outline.lineAt width t) ++ [[]]
  /-- The margins do not depend on the width. -/
  margins : Outline.readMargins (t.draw width) = t.places.map (Outline.marginAt t)
  shape : Outline.readPlaces (t.draw width) = t.places

/-- Trees without line feeds are mirrored by their drawings, and parsed units are such. -/
theorem draw_mirrors :
    (∀ cs t, parse cs = .ok t → t.LineFeedFree) ∧
      ∀ t : Tree, t.LineFeedFree → ∀ width, t.Mirrored width := by
  refine ⟨fun _ _ h => lineFeedFree_of_parse h, ?_⟩
  intro t h width
  exact ⟨walk_eq_places t, Outline.splitOn_draw h width, Outline.readMargins_draw h width,
    Outline.readPlaces_draw h width⟩

/-- The unit `unit a;.` -/
def smallest : Tree :=
  .node .goal
    [.node .unit [.leaf "UNIT", .node .ident [.leaf "a"], .leaf ";", .leaf "."]]

theorem draw_mirrors_smallest :
    parse "unit a;.".toList = .ok smallest ∧ smallest.LineFeedFree ∧ smallest.Mirrored 2 ∧
      smallest.draw 2 =
        "└─ goal: UN...\n  └─ unit: UN...\n    ├─ UN...\n    ├─ ident: a\n" ++
          "    │ └─ a\n    ├─ ;\n    └─ .\n" ∧
      Outline.readPlaces (smallest.draw 2) =
        [[], [0], [0, 0], [0, 1], [0, 1, 0], [0, 2], [0, 3]] := by
  have hparse : parse "unit a;.".toList = .ok smallest := by decide +kernel
  have hfree := draw_mirrors.1 _ _ hparse
  have hmirrored := draw_mirrors.2 smallest hfree 2
  exact ⟨hparse, hfree, hmirrored, by decide +kernel, hmirrored.shape⟩

end Tree
end PascalUnit
