import PascalUnit.Grammar.Piece

/-!
# Reading tokens with a grammar piece

Reading goes from left to right.  Alternatives are tried in order and the first
that succeeds is kept; a repetition goes on as long as its body succeeds.

## Stalls

Every refusal happens at some token and wants some other token there.  Of all
the refusals met while reading, a reading keeps those at the furthest token.
They include refusals that did not stop it: the alternative that was given up,
the repetition that came to its end.
-/

namespace PascalUnit

/-- The furthest place reached, counted in tokens, and the tokens wanted there. -/
structure Stall where
  place : Nat
  wanted : List Token
  deriving DecidableEq, Repr

namespace Stall

def reached (place : Nat) : Stall :=
  ⟨place, []⟩

/-- The further of two stalls; at one place, what either of them wants. -/
def join (a b : Stall) : Stall :=
  if a.place < b.place then b
  else if b.place < a.place then a
  else ⟨a.place, a.wanted ++ b.wanted⟩

end Stall

structure Cursor where
  place : Nat
  rest : List PlacedToken
  deriving DecidableEq, Repr

inductive Reading where
  | matched (trees : List Tree) (cursor : Cursor) (stall : Stall)
  | refused (stall : Stall)
  deriving Repr

namespace Reading

def after (s : Stall) : Reading → Reading
  | matched ts c t => matched ts c (s.join t)
  | refused t => refused (s.join t)

def prepend (trees : List Tree) : Reading → Reading
  | matched ts c s => matched (trees ++ ts) c s
  | refused s => refused s

theorem matched_of_prepend_after {r : Reading} {us ts : List Tree} {s t : Stall} {d : Cursor}
    (h : (r.prepend us).after s = .matched ts d t) :
    ∃ vs u, r = .matched vs d u ∧ ts = us ++ vs := by
  cases r with
  | refused u => cases h
  | matched vs e u =>
      cases h
      exact ⟨vs, u, rfl, rfl⟩

end Reading

namespace Piece

/--
Reads with `body` again and again until it refuses.  A round that takes no token
would repeat for ever and ends the repetition instead.
-/
def repeatedly (body : Cursor → Reading) (c : Cursor) : Reading :=
  match body c with
  | .refused s => .matched [] c s
  | .matched ts d s =>
      if d.rest.length < c.rest.length then
        ((repeatedly body d).prepend ts).after s
      else .matched [] c s
termination_by c.rest.length

def read (leafText : PlacedToken → String) : Piece → Cursor → Reading
  | nothing, c => .matched [] c (.reached c.place)
  | token t, c =>
      match c.rest with
      | [] => .refused ⟨c.place, [t]⟩
      | x :: rest =>
          if x.token = t then
            .matched [.leaf (leafText x)] ⟨c.place + 1, rest⟩ (.reached (c.place + 1))
          else .refused ⟨c.place, [t]⟩
  | both p q, c =>
      match read leafText p c with
      | .refused s => .refused s
      | .matched ts d s => ((read leafText q d).prepend ts).after s
  | either p q, c =>
      match read leafText p c with
      | .refused s => (read leafText q c).after s
      | .matched ts d s => .matched ts d s
  | many p, c => repeatedly (read leafText p) c
  | named r p, c =>
      match read leafText p c with
      | .refused s => .refused s
      | .matched ts d s => .matched [.node r ts] d s

/-!
## Successful readings
-/

theorem read_both_eq_matched {leafText : PlacedToken → String} {p q : Piece} {c d : Cursor}
    {ts : List Tree} {s : Stall} (h : read leafText (both p q) c = .matched ts d s) :
    ∃ us vs e t u, read leafText p c = .matched us e t ∧ read leafText q e = .matched vs d u ∧
      ts = us ++ vs := by
  rw [read] at h
  cases hp : read leafText p c with
  | refused t =>
      rw [hp] at h
      cases h
  | matched us e t =>
      rw [hp] at h
      rcases Reading.matched_of_prepend_after h with ⟨vs, u, hq, hts⟩
      exact ⟨us, vs, e, t, u, rfl, hq, hts⟩

theorem read_either_eq_matched {leafText : PlacedToken → String} {p q : Piece} {c d : Cursor}
    {ts : List Tree} {s : Stall} (h : read leafText (either p q) c = .matched ts d s) :
    read leafText p c = .matched ts d s ∨
      ∃ t u, read leafText p c = .refused t ∧ read leafText q c = .matched ts d u := by
  rw [read] at h
  cases hp : read leafText p c with
  | matched us e t =>
      rw [hp] at h
      exact Or.inl h
  | refused t =>
      rw [hp] at h
      cases hq : read leafText q c with
      | refused u =>
          rw [hq] at h
          cases h
      | matched vs e u =>
          rw [hq] at h
          cases h
          exact Or.inr ⟨t, u, rfl, rfl⟩

theorem read_named_eq_matched {leafText : PlacedToken → String} {r : Rule} {p : Piece}
    {c d : Cursor} {ts : List Tree} {s : Stall}
    (h : read leafText (named r p) c = .matched ts d s) :
    ∃ us, read leafText p c = .matched us d s ∧ ts = [.node r us] := by
  rw [read] at h
  cases hp : read leafText p c with
  | refused t =>
      rw [hp] at h
      cases h
  | matched us e t =>
      rw [hp] at h
      cases h
      exact ⟨us, rfl, rfl⟩

end Piece
end PascalUnit
