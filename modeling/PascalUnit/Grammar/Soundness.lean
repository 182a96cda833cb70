import PascalUnit.Grammar.Reading

/-!
# Readings are derivations

A successful reading takes tokens off the front of its cursor, and the piece it
read with derives exactly those tokens with the trees it gives.  The place of
the cursor advances by their number.
-/

namespace PascalUnit
namespace Piece

/-- The cursor `d` stands behind tokens at `c` that the piece derives with `ts`. -/
def Advances (leafText : PlacedToken → String) (p : Piece) (c d : Cursor)
    (ts : List Tree) : Prop :=
  ∃ xs : List PlacedToken,
    c.rest = xs ++ d.rest ∧ Derives leafText p xs ts ∧ d.place = c.place + xs.length

namespace Advances

theorem both {leafText : PlacedToken → String} {p q : Piece} {c d e : Cursor}
    {ts us : List Tree} (hp : Advances leafText p c d ts)
    (hq : Advances leafText q d e us) :
    Advances leafText (both p q) c e (ts ++ us) := by
  rcases hp with ⟨xs, hrest, hderives, hplace⟩
  rcases hq with ⟨ys, hrest', hderives', hplace'⟩
  refine ⟨xs ++ ys, ?_, .both hderives hderives', ?_⟩
  · rw [hrest, hrest', List.append_assoc]
  · rw [hplace', hplace, List.length_append, Nat.add_assoc]

theorem stop {leafText : PlacedToken → String} {p : Piece} (c : Cursor) :
    Advances leafText (many p) c c [] :=
  ⟨[], rfl, .stop, rfl⟩

theorem more {leafText : PlacedToken → String} {p : Piece} {c d e : Cursor}
    {ts us : List Tree} (hp : Advances leafText p c d ts)
    (hmany : Advances leafText (many p) d e us) :
    Advances leafText (many p) c e (ts ++ us) := by
  rcases hp with ⟨xs, hrest, hderives, hplace⟩
  rcases hmany with ⟨ys, hrest', hderives', hplace'⟩
  refine ⟨xs ++ ys, ?_, .more hderives hderives', ?_⟩
  · rw [hrest, hrest', List.append_assoc]
  · rw [hplace', hplace, List.length_append, Nat.add_assoc]

theorem first {leafText : PlacedToken → String} {p q : Piece} {c d : Cursor}
    {ts : List Tree} (hp : Advances leafText p c d ts) :
    Advances leafText (either p q) c d ts := by
  rcases hp with ⟨xs, hrest, hderives, hplace⟩
  exact ⟨xs, hrest, .first hderives, hplace⟩

theorem second {leafText : PlacedToken → String} {p q : Piece} {c d : Cursor}
    {ts : List Tree} (hq : Advances leafText q c d ts) :
    Advances leafText (either p q) c d ts := by
  rcases hq with ⟨xs, hrest, hderives, hplace⟩
  exact ⟨xs, hrest, .second hderives, hplace⟩

theorem named {leafText : PlacedToken → String} {r : Rule} {p : Piece} {c d : Cursor}
    {ts : List Tree} (hp : Advances leafText p c d ts) :
    Advances leafText (named r p) c d [.node r ts] := by
  rcases hp with ⟨xs, hrest, hderives, hplace⟩
  exact ⟨xs, hrest, .named hderives, hplace⟩

end Advances

/-!
## Repetitions
-/

theorem repeatedly_advances {leafText : PlacedToken → String} {p : Piece}
    (hbody : ∀ {c d : Cursor} {ts : List Tree} {s : Stall},
      read leafText p c = .matched ts d s → Advances leafText p c d ts)
    {c d : Cursor} {ts : List Tree} {s : Stall}
    (h : repeatedly (read leafText p) c = .matched ts d s) :
    Advances leafText (many p) c d ts := by
  fun_induction repeatedly (read leafText p) c generalizing ts d s with
  | case1 c t hread =>
      cases h
      exact .stop c
  | case2 c us e t hread _ ih =>
      rcases Reading.matched_of_prepend_after h with ⟨vs, u, hrest, rfl⟩
      exact .more (hbody hread) (ih hrest)
  | case3 c us e t hread _ =>
      cases h
      exact .stop c

/-!
## All pieces
-/

theorem advances_of_read {leafText : PlacedToken → String} {p : Piece} {c d : Cursor}
    {ts : List Tree} {s : Stall} (h : read leafText p c = .matched ts d s) :
    Advances leafText p c d ts := by
  induction p generalizing c d ts s with
  | nothing =>
      cases h
      exact ⟨[], rfl, .nothing, rfl⟩
  | token t =>
      rw [read] at h
      split at h
      · cases h
      · rename_i x rest hrest
        split at h
        · rename_i htoken
          cases h
          subst htoken
          exact ⟨[x], hrest, .token x, rfl⟩
        · cases h
  | both p q ihp ihq =>
      rcases read_both_eq_matched h with ⟨us, vs, e, t, u, hp, hq, rfl⟩
      exact .both (ihp hp) (ihq hq)
  | either p q ihp ihq =>
      rcases read_either_eq_matched h with hp | ⟨t, u, _, hq⟩
      · exact .first (ihp hp)
      · exact .second (ihq hq)
  | many p ih =>
      rw [read] at h
      exact repeatedly_advances ih h
  | named r p ih =>
      rcases read_named_eq_matched h with ⟨us, hp, rfl⟩
      exact .named (ih hp)

end Piece
end PascalUnit
