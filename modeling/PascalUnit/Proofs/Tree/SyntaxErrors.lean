import PascalUnit.Proofs.Tree.Acceptance

/-!
# Diagnostics are exact

A row of tokens that is no unit is refused at the first token that no unit can
have there.  The diagnostic lists what units can have in its place: every such
kind and no other, the end of input among them where a unit may end.

## The end of input

A unit is followed by the end of input, which is a kind of its own and stands in
no row.  A refused unit is the same as a refused row of a unit and that kind.
-/

namespace PascalUnit

open Continuation

namespace Grammar

open Piece

/-- Some unit, with the end of input behind it, begins with these kinds. -/
def ViableUnit (w : List Token) : Prop :=
  ∃ ks, SpellsUnit ks ∧ w <+: ks ++ [.endOfInput]

def closedUnit : Piece :=
  both unit (token .endOfInput)

theorem closedUnit_orderly : Orderly closedUnit :=
  (foreseen_of_settled (by decide +kernel)).orderly

theorem mem_closedUnit {w : List Token} :
    w ∈ closedUnit.language ↔ ∃ ks ∈ unit.language, w = ks ++ [.endOfInput] := by
  constructor
  · intro h
    rcases Language.mem_mul.mp h with ⟨ks, hks, b, hb, rfl⟩
    rw [mem_language_token.mp hb]
    exact ⟨ks, hks, rfl⟩
  · intro h
    rcases h with ⟨ks, hks, rfl⟩
    exact Language.append_mem_mul hks rfl

theorem viableUnit_iff {w : List Token} : ViableUnit w ↔ Viable closedUnit.language w := by
  constructor
  · intro h
    rcases h with ⟨ks, hks, v, hv⟩
    exact ⟨v, mem_closedUnit.mpr ⟨ks, spellsUnit_iff.mp hks, hv⟩⟩
  · intro h
    rcases h with ⟨v, hv⟩
    rcases mem_closedUnit.mp hv with ⟨ks, hks, heq⟩
    exact ⟨ks, spellsUnit_iff.mpr hks, v, heq⟩

theorem endOfInput_not_mem_unit {ks : List Token} (h : ks ∈ unit.language) :
    .endOfInput ∉ ks := by
  intro hmem
  exact absurd (mem_alphabet (viable_of_mem h) hmem) (by decide +kernel)

theorem mem_unit_of_viable_endOfInput {ks : List Token}
    (h : Viable closedUnit.language (ks ++ [.endOfInput])) : ks ∈ unit.language := by
  rcases h with ⟨v, hv⟩
  rcases mem_closedUnit.mp hv with ⟨us, hus, heq⟩
  rcases List.eq_nil_or_concat' v with rfl | ⟨v, k, rfl⟩
  · rw [List.append_nil] at heq
    rcases List.append_inj' heq rfl with ⟨rfl, _⟩
    exact hus
  · rw [← List.append_assoc] at heq
    rcases List.append_inj' heq rfl with ⟨rfl, _⟩
    exact absurd (by simp) (endOfInput_not_mem_unit hus)

/-- What refuses a row as a unit refuses it as a unit with its end. -/
theorem read_closedUnit_of_error {leafText : PlacedToken → String} {xs : List PlacedToken}
    {s : Stall} (hxs : ∀ x ∈ xs, x.token ≠ .endOfInput)
    (h : readGoal leafText xs = .error s) :
    closedUnit.read leafText ⟨0, xs⟩ = .refused s := by
  rw [readGoal] at h
  rw [closedUnit, Piece.read]
  cases hread : unit.read leafText ⟨0, xs⟩ with
  | refused t =>
      rw [hread] at h
      cases h
      rfl
  | matched ts c t =>
      rw [hread] at h
      rcases advances_of_read hread with ⟨ys, hrest, _, _⟩
      rcases c with ⟨place, rest⟩
      cases rest with
      | nil => cases h
      | cons x rest =>
          have hx : x.token ≠ .endOfInput := by
            refine hxs x ?_
            have hmem : x ∈ ys ++ x :: rest := by simp
            rw [← hrest] at hmem
            exact hmem
          cases h
          simp [Piece.read, hx, Reading.prepend, Reading.after]

end Grammar

/-!
## The listing of a diagnostic
-/

theorem Token.listing_pairwise (ts : List Token) :
    (Token.listing ts).Pairwise fun a b => a.rank < b.rank := by
  have hall : Token.all.Pairwise fun a b => a.rank < b.rank := by decide
  exact hall.filter _

namespace Furthest

variable {L : Language Token} {ks seen wanted : List Token}

theorem not_mem_of_next (h : Furthest L ks seen wanted) {k : Token}
    (hk : ks[seen.length]? = some k) : k ∉ wanted := by
  intro hwanted
  rcases h.isPrefix with ⟨rest, rfl⟩
  cases rest with
  | nil => simp at hk
  | cons first rest =>
      have hfirst : first = k := by simpa using hk
      subst hfirst
      exact h.refused first hwanted ⟨rest, by simp⟩

theorem wanted_ne_nil (h : Furthest L ks seen wanted) (hseen : seen ∉ L) : wanted ≠ [] := by
  rcases h.viable with ⟨v, hv⟩
  cases v with
  | nil =>
      rw [List.append_nil] at hv
      exact absurd hv hseen
  | cons k v =>
      have hk : k ∈ wanted := by
        rw [h.mem_wanted]
        exact ⟨v, by simpa using hv⟩
      exact List.ne_nil_of_mem hk

end Furthest

/-!
## Refused rows
-/

namespace Grammar

variable {leafText : PlacedToken → String} {xs : List PlacedToken} {s : Stall}

/-- The stall of a refused row is the furthest place of a unit in it. -/
theorem furthest_of_error (hxs : ∀ x ∈ xs, x.token ≠ .endOfInput)
    (h : readGoal leafText xs = .error s) :
    s.place ≤ xs.length ∧
      Furthest closedUnit.language (kinds xs) ((kinds xs).take s.place) s.wanted := by
  have hexact := closedUnit_orderly.read_exact leafText ⟨0, xs⟩
  rw [read_closedUnit_of_error hxs h] at hexact
  cases hexact with
  | refused _ hstall =>
      rcases hstall with ⟨seen, hplace, hseen⟩
      rw [Nat.zero_add] at hplace
      have htake : (kinds xs).take s.place = seen := by
        rw [hplace]
        exact (List.prefix_iff_eq_take.mp hseen.isPrefix).symm
      rw [htake]
      refine ⟨?_, hseen⟩
      rw [hplace, ← length_kinds]
      exact hseen.isPrefix.length_le

theorem wanted_ne_nil_of_error (hxs : ∀ x ∈ xs, x.token ≠ .endOfInput)
    (h : readGoal leafText xs = .error s) : s.wanted ≠ [] := by
  refine (furthest_of_error hxs h).2.wanted_ne_nil ?_
  intro hmem
  rcases mem_closedUnit.mp hmem with ⟨ks, _, heq⟩
  have hend : .endOfInput ∈ kinds xs := by
    refine List.mem_of_mem_take (i := s.place) ?_
    rw [heq]
    simp
  rcases List.mem_map.mp hend with ⟨x, hx, hxend⟩
  exact hxs x hx hxend

theorem found_not_mem_wanted (hxs : ∀ x ∈ xs, x.token ≠ .endOfInput)
    (h : readGoal leafText xs = .error s) (behind : Span) :
    (xs[s.place]?.getD ⟨.endOfInput, behind⟩).token ∉ s.wanted := by
  rcases furthest_of_error hxs h with ⟨hle, hfurthest⟩
  have hlength : ((kinds xs).take s.place).length = s.place := by
    rw [List.length_take, length_kinds, Nat.min_eq_left hle]
  cases hfound : xs[s.place]? with
  | some x =>
      refine hfurthest.not_mem_of_next ?_
      rw [hlength, kinds, List.getElem?_map, hfound]
      rfl
  | none =>
      -- the whole row is viable; with the end of input behind it, it would be a unit
      have hplace : s.place = xs.length :=
        Nat.le_antisymm hle (List.getElem?_eq_none_iff.mp hfound)
      intro hwanted
      have hviable := (hfurthest.mem_wanted _).mp hwanted
      rw [hplace, ← length_kinds, List.take_length] at hviable
      rcases read_unit_of_kinds_mem leafText (mem_unit_of_viable_endOfInput hviable) with
        ⟨ts, c, t, hread, hempty⟩
      rw [readGoal_eq_ok.mpr ⟨ts, c, t, hread, hempty, rfl⟩] at h
      cases h

end Grammar

namespace Tree

open Grammar

theorem significant_ne_endOfInput {tokens : List PlacedToken} :
    ∀ x ∈ significant tokens, x.token ≠ .endOfInput := by
  intro x hx
  exact of_decide_eq_true (List.mem_filter.mp hx).2

/--
A diagnostic that stands at token `i` of a row, where no unit can have that token
and `expected` are the kinds that some unit has there.
-/
structure ExactAt (cs : List Char) (tokens : List PlacedToken) (e : SyntaxError) (i : Nat) :
    Prop where
  inRow : i ≤ (significant tokens).length
  located : (⟨e.found, e.span⟩ : PlacedToken) =
    (significant tokens)[i]?.getD ⟨.endOfInput, ⟨Text.byteLength cs, Text.byteLength cs⟩⟩
  positioned : e.position = Position.ofOffset cs e.span.start
  nonempty : e.expected ≠ []
  increasing : e.expected.Pairwise fun a b => a.rank < b.rank
  mem_expected : ∀ k,
    k ∈ e.expected ↔ ViableUnit ((kinds (significant tokens)).take i ++ [k])
  unexpected : e.found ∉ e.expected

theorem ofTokens_error_exact {cs : List Char} {tokens : List PlacedToken} {e : SyntaxError}
    (h : ofTokens cs tokens = .error e) : ∃ i, ExactAt cs tokens e i := by
  rw [ofTokens] at h
  cases hgoal : readGoal (PlacedToken.leafText cs) (significant tokens) with
  | ok t =>
      rw [hgoal] at h
      cases h
  | error s =>
      rw [hgoal] at h
      cases h
      have hne := wanted_ne_nil_of_error significant_ne_endOfInput hgoal
      have hunwanted := found_not_mem_wanted significant_ne_endOfInput hgoal
        ⟨Text.byteLength cs, Text.byteLength cs⟩
      rcases furthest_of_error significant_ne_endOfInput hgoal with ⟨hle, hfurthest⟩
      refine ⟨s.place, hle, rfl, rfl, ?_, Token.listing_pairwise s.wanted, ?_, ?_⟩
      · rcases List.exists_mem_of_ne_nil _ hne with ⟨k, hk⟩
        exact List.ne_nil_of_mem (Token.mem_listing.mpr hk)
      · intro k
        exact Token.mem_listing.trans ((hfurthest.mem_wanted k).trans viableUnit_iff.symm)
      · intro hfound
        exact hunwanted (Token.mem_listing.mp hfound)

/-- A constant without a value, in the row of `Unit a; interface const b = ;`. -/
def valueless : List PlacedToken :=
  [⟨.keyword .unit, 0, 4⟩, ⟨.ident, 5, 6⟩, ⟨.mark .semicolon, 6, 7⟩,
    ⟨.keyword .interface, 8, 17⟩, ⟨.keyword .const, 18, 23⟩, ⟨.ident, 24, 25⟩,
    ⟨.mark .equals, 26, 27⟩, ⟨.mark .semicolon, 28, 29⟩, ⟨.endOfInput, 29, 29⟩]

theorem valueless_error_exact :
    ofTokens "Unit a; interface const b = ;".toList valueless =
        .error ⟨⟨28, 29⟩, ⟨1, 29⟩, .mark .semicolon, [.number, .literal]⟩ ∧
      ∃ i, ExactAt "Unit a; interface const b = ;".toList valueless
        ⟨⟨28, 29⟩, ⟨1, 29⟩, .mark .semicolon, [.number, .literal]⟩ i := by
  have herror : ofTokens "Unit a; interface const b = ;".toList valueless =
      .error ⟨⟨28, 29⟩, ⟨1, 29⟩, .mark .semicolon, [.number, .literal]⟩ := by decide +kernel
  exact ⟨herror, ofTokens_error_exact herror⟩

end Tree
end PascalUnit
