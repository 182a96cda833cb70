import PascalUnit.Proofs.Grammar.Agreement
import PascalUnit.Tree.Parse

/-!
# Readings do not see places

A reading looks at a token through its kind and the text of its leaf, never at
its span.  Two rows with the same terminals are therefore read in step: the same
pieces succeed on both, with the same trees, and the same tokens are wanted where
they fail.
-/

namespace PascalUnit

/-- Two cursors at the same place, with the same terminals ahead. -/
structure Cursor.InStep (f g : PlacedToken → String) (c d : Cursor) : Prop where
  place : c.place = d.place
  ahead : c.rest.map (PlacedToken.terminal f) = d.rest.map (PlacedToken.terminal g)

theorem Cursor.InStep.length_rest {f g : PlacedToken → String} {c d : Cursor}
    (h : c.InStep f g d) : c.rest.length = d.rest.length := by
  have hlength := congrArg List.length h.ahead
  rwa [List.length_map, List.length_map] at hlength

inductive Reading.InStep (f g : PlacedToken → String) : Reading → Reading → Prop where
  | matched {c d : Cursor} (ts : List Tree) (s : Stall) :
      c.InStep f g d → InStep f g (.matched ts c s) (.matched ts d s)
  | refused (s : Stall) : InStep f g (.refused s) (.refused s)

namespace Reading.InStep

variable {f g : PlacedToken → String} {r r' : Reading}

theorem after (h : InStep f g r r') (s : Stall) : InStep f g (r.after s) (r'.after s) := by
  cases h with
  | matched ts t hcursors => exact .matched ts (s.join t) hcursors
  | refused t => exact .refused (s.join t)

theorem prepend (h : InStep f g r r') (ts : List Tree) :
    InStep f g (r.prepend ts) (r'.prepend ts) := by
  cases h with
  | matched us t hcursors => exact .matched (ts ++ us) t hcursors
  | refused t => exact .refused t

end Reading.InStep

namespace Piece

variable {f g : PlacedToken → String}

theorem read_token_inStep (t : Token) {c d : Cursor} (h : c.InStep f g d) :
    (read f (token t) c).InStep f g (read g (token t) d) := by
  rcases c with ⟨place, xs⟩
  rcases d with ⟨place', ys⟩
  rcases h with ⟨hplace, hahead⟩
  cases hplace
  cases xs with
  | nil =>
      cases ys with
      | nil => exact .refused _
      | cons y ys => cases hahead
  | cons x xs =>
      cases ys with
      | nil => cases hahead
      | cons y ys =>
          simp only [List.map_cons, List.cons.injEq, PlacedToken.terminal,
            Terminal.mk.injEq] at hahead
          rcases hahead with ⟨⟨htoken, htext⟩, hmore⟩
          simp only [read, htoken, htext]
          split
          · exact .matched _ _ ⟨rfl, hmore⟩
          · exact .refused _

theorem repeatedly_inStep {body body' : Cursor → Reading}
    (hbody : ∀ {c d : Cursor}, c.InStep f g d → (body c).InStep f g (body' d))
    {c d : Cursor} (h : c.InStep f g d) :
    (repeatedly body c).InStep f g (repeatedly body' d) := by
  fun_induction repeatedly body c generalizing d with
  | case1 c s hround =>
      have hrounds := hbody h
      rw [hround] at hrounds
      rw [repeatedly.eq_def body' d]
      generalize body' d = r' at hrounds
      cases hrounds with
      | refused => exact .matched [] s h
  | case2 c ts e s hround hless ih =>
      have hrounds := hbody h
      rw [hround] at hrounds
      rw [repeatedly.eq_def body' d]
      generalize body' d = r' at hrounds
      cases hrounds with
      | @matched _ e' _ _ hnext =>
          -- both rounds take a token or neither does
          rw [h.length_rest, hnext.length_rest] at hless
          simp only [if_pos hless]
          exact ((ih hnext).prepend ts).after s
  | case3 c ts e s hround hless =>
      have hrounds := hbody h
      rw [hround] at hrounds
      rw [repeatedly.eq_def body' d]
      generalize body' d = r' at hrounds
      cases hrounds with
      | @matched _ e' _ _ hnext =>
          rw [h.length_rest, hnext.length_rest] at hless
          simp only [if_neg hless]
          exact .matched [] s h

theorem read_inStep (p : Piece) {c d : Cursor} (h : c.InStep f g d) :
    (read f p c).InStep f g (read g p d) := by
  induction p generalizing c d with
  | nothing =>
      rw [read, read, h.place]
      exact .matched [] _ h
  | token t => exact read_token_inStep t h
  | both p q ihp ihq =>
      have hp := ihp h
      rw [read, read]
      generalize read f p c = r, read g p d = r' at hp
      cases hp with
      | refused s => exact .refused s
      | matched ts s hnext => exact ((ihq hnext).prepend ts).after s
  | either p q ihp ihq =>
      have hp := ihp h
      rw [read, read]
      generalize read f p c = r, read g p d = r' at hp
      cases hp with
      | refused s => exact (ihq h).after s
      | matched ts s hnext => exact .matched ts s hnext
  | many p ih =>
      rw [read, read]
      exact repeatedly_inStep ih h
  | named r p ih =>
      have hp := ih h
      rw [read, read]
      generalize read f p c = u, read g p d = u' at hp
      cases hp with
      | refused s => exact .refused s
      | matched ts s hnext => exact .matched [.node r ts] s hnext

end Piece

/-- Rows with the same terminals have the same tree, or stall alike. -/
theorem Grammar.readGoal_eq_of_terminals {f g : PlacedToken → String}
    {xs ys : List PlacedToken}
    (h : xs.map (PlacedToken.terminal f) = ys.map (PlacedToken.terminal g)) :
    readGoal f xs = readGoal g ys := by
  have hread := Piece.read_inStep unit (c := ⟨0, xs⟩) (d := ⟨0, ys⟩) ⟨rfl, h⟩
  rw [readGoal, readGoal]
  generalize unit.read f ⟨0, xs⟩ = r, unit.read g ⟨0, ys⟩ = r' at hread
  cases hread with
  | refused s => rfl
  | @matched c d ts s hnext =>
      have hempty : c.rest.isEmpty = d.rest.isEmpty := by
        rw [Bool.eq_iff_iff, List.isEmpty_iff_length_eq_zero, List.isEmpty_iff_length_eq_zero,
          hnext.length_rest]
      simp only [hempty, hnext.place]

end PascalUnit
