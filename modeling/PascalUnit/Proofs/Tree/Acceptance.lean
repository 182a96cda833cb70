import PascalUnit.Proofs.Grammar.Agreement
import PascalUnit.Proofs.Grammar.Unambiguity
import PascalUnit.Tree.Parse

/-!
# Units are read exactly

A row of tokens has a tree exactly when the grammar derives it.  The tree is then
the only plain derivation tree of the row, and its leaves are the tokens one by
one, in order.
-/

namespace PascalUnit

open Continuation

namespace Tree

/-!
## Leaves
-/

theorem leafTextsAll_append (ts us : List Tree) :
    leafTextsAll (ts ++ us) = leafTextsAll ts ++ leafTextsAll us := by
  induction ts with
  | nil => rfl
  | cons t ts ih => rw [List.cons_append, leafTextsAll, leafTextsAll, ih, List.append_assoc]

end Tree

theorem Piece.Derives.leafTexts {leafText : PlacedToken → String} {p : Piece}
    {xs : List PlacedToken} {ts : List Tree} (h : Derives leafText p xs ts) :
    Tree.leafTextsAll ts = xs.map leafText := by
  induction h with
  | nothing => rfl
  | token x => rfl
  | both _ _ ihp ihq => rw [Tree.leafTextsAll_append, ihp, ihq, List.map_append]
  | first _ ih => exact ih
  | second _ ih => exact ih
  | stop => rfl
  | more _ _ ihp ihmany => rw [Tree.leafTextsAll_append, ihp, ihmany, List.map_append]
  | @named r p xs ts _ ih =>
      rw [Tree.leafTextsAll, Tree.leafTexts, Tree.leafTextsAll, List.append_nil, ih]

namespace Grammar

open Piece

/-!
## Readings of a whole row
-/

theorem read_unit_of_kinds_mem (leafText : PlacedToken → String) {xs : List PlacedToken}
    (h : kinds xs ∈ unit.language) :
    ∃ ts c s, unit.read leafText ⟨0, xs⟩ = .matched ts c s ∧ c.rest = [] := by
  have hexact := unit_orderly.read_exact leafText ⟨0, xs⟩
  cases hread : unit.read leafText ⟨0, xs⟩ with
  | refused s =>
      rw [hread] at hexact
      cases hexact with
      | refused hnone _ => exact absurd (List.prefix_refl _) (hnone _ h)
  | matched ts c s =>
      rw [hread] at hexact
      cases hexact with
      | matched ys hrest _ hlong _ =>
          refine ⟨ts, c, s, rfl, ?_⟩
          have hle := (hlong.longest _ h (List.prefix_refl _)).length_le
          have hlength : xs.length = ys.length + c.rest.length := by
            rw [← List.length_append]
            exact congrArg List.length hrest
          rw [length_kinds, length_kinds] at hle
          exact List.length_eq_zero_iff.mp (by omega)

theorem readGoal_eq_ok {leafText : PlacedToken → String} {xs : List PlacedToken} {t : Tree} :
    readGoal leafText xs = .ok t ↔
      ∃ ts c s, unit.read leafText ⟨0, xs⟩ = .matched ts c s ∧ c.rest = [] ∧
        t = .node .goal ts := by
  rw [readGoal]
  constructor
  · intro h
    split at h
    · cases h
    · rename_i ts c s hread
      split at h
      · rename_i hempty
        cases h
        exact ⟨ts, c, s, hread, List.isEmpty_iff.mp hempty, rfl⟩
      · cases h
  · intro h
    rcases h with ⟨ts, c, s, hread, hempty, rfl⟩
    rw [hread]
    simp [hempty]

theorem plain_goal {ts : List Tree} : (Tree.node .goal ts).Plain ↔ ∀ t ∈ ts, t.Plain :=
  Tree.plain_node_of_ne (by decide)

theorem readGoal_eq_ok_iff {leafText : PlacedToken → String} {xs : List PlacedToken} {t : Tree} :
    readGoal leafText xs = .ok t ↔ Derives leafText goal xs [t] ∧ t.Plain := by
  constructor
  · intro h
    rcases readGoal_eq_ok.mp h with ⟨ts, c, s, hread, hempty, rfl⟩
    rcases advances_of_read hread with ⟨ys, hrest, hderives, _⟩
    have hys : xs = ys := by
      rw [hempty, List.append_nil] at hrest
      exact hrest
    rw [hys]
    exact ⟨.named hderives, plain_goal.mpr (unit_readsPlain leafText hread)⟩
  · intro h
    rcases h with ⟨hgoal, hplain⟩
    rcases derives_named.mp hgoal with ⟨ts, heq, hunit⟩
    cases heq
    rcases read_unit_of_kinds_mem leafText hunit.kinds_mem_language with ⟨us, c, s, hread, hempty⟩
    rcases advances_of_read hread with ⟨ys, hrest, hderives, _⟩
    have hys : xs = ys := by
      rw [hempty, List.append_nil] at hrest
      exact hrest
    rw [← hys] at hderives
    -- both derivations are plain, so they are the same
    have hsame := unit_sole hunit hderives (plain_goal.mp hplain) (unit_readsPlain leafText hread)
    rw [hsame]
    exact readGoal_eq_ok.mpr ⟨us, c, s, hread, hempty, rfl⟩

end Grammar

/-!
## Trees of token rows
-/

def terminals (cs : List Char) (tokens : List PlacedToken) : List Terminal :=
  (significant tokens).map (PlacedToken.terminal (PlacedToken.leafText cs))

namespace Tree

open Grammar

theorem ofTokens_eq_ok_iff {cs : List Char} {tokens : List PlacedToken} {t : Tree} :
    ofTokens cs tokens = .ok t ↔
      DerivationTree .goal (terminals cs tokens) t ∧ t.Plain := by
  rw [terminals, derivationTree_goal_iff, ← readGoal_eq_ok_iff, ofTokens]
  cases readGoal (PlacedToken.leafText cs) (significant tokens) with
  | ok u => simp
  | error s => simp

theorem leafTexts_of_derivationTree {cs : List Char} {tokens : List PlacedToken} {t : Tree}
    (h : DerivationTree .goal (terminals cs tokens) t) :
    t.leafTexts = (terminals cs tokens).map Terminal.text := by
  have hleaves := (derivationTree_goal_iff.mp h).leafTexts
  rw [leafTextsAll, leafTextsAll, List.append_nil] at hleaves
  rw [hleaves, terminals, List.map_map]
  rfl

theorem exists_ofTokens_eq_ok {cs : List Char} {tokens : List PlacedToken} {t : Tree}
    (h : DerivationTree .goal (terminals cs tokens) t) :
    ∃ u, ofTokens cs tokens = .ok u := by
  rcases Piece.derives_named.mp (derivationTree_goal_iff.mp h) with ⟨ts, _, hunit⟩
  rcases read_unit_of_kinds_mem (PlacedToken.leafText cs) hunit.kinds_mem_language with
    ⟨us, c, s, hread, hempty⟩
  have hgoal := readGoal_eq_ok.mpr ⟨us, c, s, hread, hempty, rfl⟩
  exact ⟨_, ofTokens_eq_ok_iff.mpr
    ⟨derivationTree_goal_iff.mpr (readGoal_eq_ok_iff.mp hgoal).1, (readGoal_eq_ok_iff.mp hgoal).2⟩⟩

/--
The tree of a row of tokens is the one plain derivation tree of the row.  It
exists as soon as the grammar derives the row at all, and its leaves are the
tokens other than the end of input, in order.
-/
theorem ofTokens_derives_exactly (cs : List Char) (tokens : List PlacedToken) :
    (∀ t, ofTokens cs tokens = .ok t ↔
      DerivationTree .goal (terminals cs tokens) t ∧ t.Plain) ∧
    (∀ t u, DerivationTree .goal (terminals cs tokens) t ∧ t.Plain →
      DerivationTree .goal (terminals cs tokens) u ∧ u.Plain → t = u) ∧
    ((∃ t, ofTokens cs tokens = .ok t) ↔
      ∃ t, DerivationTree .goal (terminals cs tokens) t) ∧
    (∀ t, ofTokens cs tokens = .ok t →
      t.leafTexts = (significant tokens).map (PlacedToken.leafText cs)) := by
  refine ⟨fun t => ofTokens_eq_ok_iff, ?_, ⟨?_, ?_⟩, ?_⟩
  · intro t u ht hu
    have hsame := (ofTokens_eq_ok_iff.mpr ht).symm.trans (ofTokens_eq_ok_iff.mpr hu)
    exact Except.ok.inj hsame
  · intro h
    rcases h with ⟨t, ht⟩
    exact ⟨t, (ofTokens_eq_ok_iff.mp ht).1⟩
  · intro h
    rcases h with ⟨t, ht⟩
    exact exists_ofTokens_eq_ok ht
  · intro t ht
    rw [leafTexts_of_derivationTree (ofTokens_eq_ok_iff.mp ht).1, terminals, List.map_map]
    rfl

end Tree
end PascalUnit
