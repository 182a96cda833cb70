import PascalUnit.Grammar.Soundness
import PascalUnit.Proofs.Grammar.Agreement
import PascalUnit.Proofs.Grammar.Lookahead

/-!
# Progress of repetitions

A repetition reads with its body until the body refuses.  This comes to an end when
every round takes a token, after at most as many rounds as there are tokens ahead.
All repetitions of the grammar are of this kind, because no body of them derives the
empty row.

## Without the check

`repeatedly` looks at what each round takes and ends the repetition when that is
nothing.  `Rounds` and `Visits` describe readings in which a repetition goes on
regardless: how many rounds there are, and which pieces are read where.  No such
reading comes to a round that takes nothing, so the check never decides a reading.
-/

namespace PascalUnit

def Cursor.inRow (xs : List PlacedToken) (i : Nat) : Cursor :=
  ⟨i, xs.drop i⟩

namespace Piece

variable {leafText : PlacedToken → String}

/-!
## Pieces that take tokens
-/

/-- A piece that derives no empty row takes tokens off the front when it succeeds. -/
theorem exists_taken_of_read {p : Piece} (hp : nullable p = false) {c d : Cursor}
    {ts : List Tree} {s : Stall} (h : read leafText p c = .matched ts d s) :
    ∃ x xs, c.rest = x :: xs ++ d.rest ∧ d.place = c.place + (x :: xs).length := by
  rcases advances_of_read h with ⟨taken, hrest, hderives, hplace⟩
  cases taken with
  | nil =>
      have hnil : [] ∈ p.language := hderives.kinds_mem_language
      rw [(nullable_iff p).mpr hnil] at hp
      cases hp
  | cons x xs => exact ⟨x, xs, hrest, hplace⟩

theorem length_lt_of_read {p : Piece} (hp : nullable p = false) {c d : Cursor}
    {ts : List Tree} {s : Stall} (h : read leafText p c = .matched ts d s) :
    d.rest.length < c.rest.length := by
  rcases exists_taken_of_read hp h with ⟨x, xs, hrest, _⟩
  rw [hrest, List.length_append, List.length_cons]
  omega

theorem inRow_of_read {p : Piece} {row : List PlacedToken} {c d : Cursor} {ts : List Tree}
    {s : Stall} (hc : c = .inRow row c.place) (h : read leafText p c = .matched ts d s) :
    d = .inRow row d.place := by
  rcases advances_of_read h with ⟨taken, hrest, _, hplace⟩
  have hahead : c.rest = row.drop c.place := congrArg Cursor.rest hc
  have hbehind : row.drop d.place = d.rest := by
    rw [hplace, ← List.drop_drop, ← hahead, hrest, List.drop_left]
  rw [Cursor.inRow, hbehind]

theorem place_of_read {p : Piece} (hp : nullable p = false) {row : List PlacedToken}
    {c d : Cursor} {ts : List Tree} {s : Stall} (hc : c = .inRow row c.place)
    (h : read leafText p c = .matched ts d s) : c.place < d.place ∧ d.place ≤ row.length := by
  rcases exists_taken_of_read hp h with ⟨x, xs, hrest, hplace⟩
  have hahead : c.rest = row.drop c.place := congrArg Cursor.rest hc
  have hlength : row.length - c.place = (x :: xs).length + d.rest.length := by
    rw [← List.length_append, ← hrest, hahead, List.length_drop]
  rw [List.length_cons] at hplace hlength
  constructor
  · omega
  · omega

/-!
## Rounds of a repetition
-/

/-- `n` rounds of a body from `c` on until it refuses, whatever they take, come to a reading. -/
inductive Rounds (body : Cursor → Reading) : Nat → Cursor → Reading → Prop where
  | stop {c : Cursor} {s : Stall} :
      body c = .refused s → Rounds body 0 c (.matched [] c s)
  | more {n : Nat} {c d : Cursor} {ts : List Tree} {s : Stall} {r : Reading} :
      body c = .matched ts d s → Rounds body n d r →
        Rounds body (n + 1) c ((r.prepend ts).after s)

theorem Rounds.unique {body : Cursor → Reading} {n m : Nat} {c : Cursor} {r r' : Reading}
    (h : Rounds body n c r) (h' : Rounds body m c r') : m = n ∧ r' = r := by
  induction h generalizing m r' with
  | stop hbody =>
      cases h' with
      | stop hbody' =>
          rw [hbody] at hbody'
          cases hbody'
          exact ⟨rfl, rfl⟩
      | more hbody' _ =>
          rw [hbody] at hbody'
          cases hbody'
  | more hbody _ ih =>
      cases h' with
      | stop hbody' =>
          rw [hbody] at hbody'
          cases hbody'
      | more hbody' hrest =>
          rw [hbody] at hbody'
          cases hbody'
          rcases ih hrest with ⟨rfl, rfl⟩
          exact ⟨rfl, rfl⟩

/-- Rounds that take tokens are no more than the tokens ahead, and come to what is read. -/
theorem exists_rounds {body : Cursor → Reading}
    (hbody : ∀ {c d : Cursor} {ts : List Tree} {s : Stall},
      body c = .matched ts d s → d.rest.length < c.rest.length) (c : Cursor) :
    ∃ n, n ≤ c.rest.length ∧ Rounds body n c (repeatedly body c) := by
  fun_induction repeatedly body c with
  | case1 c s hread => exact ⟨0, Nat.zero_le _, .stop hread⟩
  | case2 c ts d s hread hless ih =>
      rcases ih with ⟨n, hn, hrounds⟩
      exact ⟨n + 1, Nat.lt_of_le_of_lt hn hless, .more hread hrounds⟩
  -- where `repeatedly` would step in
  | case3 c ts d s hread hstuck => exact absurd (hbody hread) hstuck

theorem exists_rounds_of_read (leafText : PlacedToken → String) {p : Piece}
    (hp : nullable p = false) (c : Cursor) :
    ∃ n, n ≤ c.rest.length ∧ Rounds (read leafText p) n c (read leafText (many p) c) := by
  rw [read]
  exact exists_rounds (length_lt_of_read hp) c

/-- Where one round is wanted at least, the same rounds are read, or the first is refused. -/
theorem Rounds.read_oneOrMore {p : Piece} (hp : nullable p = false) {n : Nat} {c : Cursor}
    {r : Reading} (h : Rounds (read leafText p) n c r) :
    read leafText (oneOrMore p) c =
      if n = 0 then read leafText p c else read leafText (many p) c := by
  rw [oneOrMore, read]
  cases h with
  | stop hbody => rw [hbody, if_pos rfl]
  | more hbody _ =>
      -- the first round belongs to the repetition or stands before it
      have hmany : read leafText (many p) c = repeatedly (read leafText p) c := by
        rw [read]
      rw [hbody, if_neg (Nat.succ_ne_zero _), hmany, repeatedly, hbody]
      simp only [if_pos (length_lt_of_read hp hbody), read]

/-!
## Pieces that a reading comes to
-/

def bodies : Piece → List Piece
  | nothing => []
  | token _ => []
  | both p q => bodies p ++ bodies q
  | either p q => bodies p ++ bodies q
  | many p => p :: bodies p
  | named _ p => bodies p

/-- Reading `p` at `c` comes to reading `q` at `d`, where a repetition goes on whatever it takes. -/
inductive Visits (leafText : PlacedToken → String) : Piece → Cursor → Piece → Cursor → Prop where
  | here (p : Piece) (c : Cursor) : Visits leafText p c p c
  | first {p p' q : Piece} {c d : Cursor} :
      Visits leafText p c q d → Visits leafText (both p p') c q d
  | second {p p' q : Piece} {c d e : Cursor} {ts : List Tree} {s : Stall} :
      read leafText p c = .matched ts e s → Visits leafText p' e q d →
        Visits leafText (both p p') c q d
  | tried {p p' q : Piece} {c d : Cursor} :
      Visits leafText p c q d → Visits leafText (either p p') c q d
  | instead {p p' q : Piece} {c d : Cursor} {s : Stall} :
      read leafText p c = .refused s → Visits leafText p' c q d →
        Visits leafText (either p p') c q d
  | round {p q : Piece} {c d : Cursor} :
      Visits leafText p c q d → Visits leafText (many p) c q d
  | again {p q : Piece} {c d e : Cursor} {ts : List Tree} {s : Stall} :
      read leafText p c = .matched ts e s → Visits leafText (many p) e q d →
        Visits leafText (many p) c q d
  | inside {r : Rule} {p q : Piece} {c d : Cursor} :
      Visits leafText p c q d → Visits leafText (named r p) c q d

theorem Visits.bodies_subset {p q : Piece} {c d : Cursor} (h : Visits leafText p c q d) :
    bodies q ⊆ bodies p := by
  induction h with
  | here => exact List.Subset.refl _
  | first _ ih => exact List.subset_append_of_subset_left _ ih
  | second _ _ ih => exact List.subset_append_of_subset_right _ ih
  | tried _ ih => exact List.subset_append_of_subset_left _ ih
  | instead _ _ ih => exact List.subset_append_of_subset_right _ ih
  | round _ ih => exact List.subset_cons_of_subset _ ih
  | again _ _ ih => exact ih
  | inside _ ih => exact ih

theorem Visits.inRow {p q : Piece} {row : List PlacedToken} {c d : Cursor}
    (h : Visits leafText p c q d) (hc : c = .inRow row c.place) : d = .inRow row d.place := by
  induction h with
  | here => exact hc
  | second hread _ ih => exact ih (inRow_of_read hc hread)
  | again hread _ ih => exact ih (inRow_of_read hc hread)
  | first _ ih | tried _ ih | instead _ _ ih | round _ ih | inside _ ih => exact ih hc

theorem Visits.mem_bodies {p q : Piece} {c d : Cursor} (h : Visits leafText p c (many q) d) :
    q ∈ bodies p :=
  h.bodies_subset List.mem_cons_self

end Piece

namespace Grammar

open Piece

/-!
## The grammar
-/

def repeated : List Piece :=
  [interfaceDecl, declSection, statement, both (mark .comma) ident,
    both (mark .semicolon) formalParm, both constDecl (mark .semicolon),
    both varDecl (mark .semicolon)]

theorem nullable_piece (r : Rule) : nullable (piece r) = false := by
  cases r <;> rfl

theorem nullable_of_mem_repeated {p : Piece} (h : p ∈ repeated) : nullable p = false := by
  have hall : ∀ q ∈ repeated, nullable q = false := by decide
  exact hall p h

theorem bodies_piece_subset (r : Rule) : bodies (piece r) ⊆ repeated := by
  cases r <;> decide

theorem mem_repeated_of_visits {leafText : PlacedToken → String} {r : Rule} {q : Piece}
    {c d : Cursor} (h : Visits leafText (piece r) c (many q) d) : q ∈ repeated :=
  bodies_piece_subset r h.mem_bodies

/--
Every production, and everything the grammar repeats, takes a token where it succeeds
and stays inside its row.  A repetition has no more rounds than there are tokens ahead,
and no reading of a production comes to a round that takes nothing.
-/
theorem repetitions_progress (leafText : PlacedToken → String) (row : List PlacedToken)
    (i : Nat) :
    (∀ p, (∃ r, piece r = p) ∨ p ∈ repeated → ∀ ts d s,
      p.read leafText (.inRow row i) = .matched ts d s →
        i < d.place ∧ d.place ≤ row.length ∧ d = .inRow row d.place) ∧
    (∀ p ∈ repeated, ∃ n ≤ row.length - i,
      (∀ m r, Rounds (p.read leafText) m (.inRow row i) r ↔
        m = n ∧ r = (many p).read leafText (.inRow row i)) ∧
      (oneOrMore p).read leafText (.inRow row i) =
        if n = 0 then p.read leafText (.inRow row i)
        else (many p).read leafText (.inRow row i)) ∧
    ∀ r q c, Visits leafText (piece r) (.inRow row i) (many q) c →
      q ∈ repeated ∧ c = .inRow row c.place ∧
        ∀ ts d s, q.read leafText c = .matched ts d s → c.place < d.place := by
  refine ⟨?_, ?_, ?_⟩
  · intro p hp ts d s hread
    have hnullable : nullable p = false := by
      rcases hp with ⟨r, rfl⟩ | hp
      · exact nullable_piece r
      · exact nullable_of_mem_repeated hp
    rcases place_of_read hnullable rfl hread with ⟨hforth, hinside⟩
    exact ⟨hforth, hinside, inRow_of_read rfl hread⟩
  · intro p hp
    have hnullable := nullable_of_mem_repeated hp
    rcases exists_rounds_of_read leafText hnullable (.inRow row i) with ⟨n, hn, hrounds⟩
    rw [Cursor.inRow, List.length_drop] at hn
    refine ⟨n, hn, ?_, hrounds.read_oneOrMore hnullable⟩
    intro m r
    constructor
    · exact hrounds.unique
    · intro h
      rcases h with ⟨rfl, rfl⟩
      exact hrounds
  · intro r q c hvisits
    have hq := mem_repeated_of_visits hvisits
    have hc := hvisits.inRow rfl
    refine ⟨hq, hc, ?_⟩
    intro ts d s hread
    exact (place_of_read (nullable_of_mem_repeated hq) hc hread).1

/-- The tokens of `a,b,;` -/
def brokenOff : List PlacedToken :=
  [⟨.ident, ⟨0, 1⟩⟩, ⟨.mark .comma, ⟨1, 2⟩⟩, ⟨.ident, ⟨2, 3⟩⟩, ⟨.mark .comma, ⟨3, 4⟩⟩,
    ⟨.mark .semicolon, ⟨4, 5⟩⟩]

def nextName : Piece :=
  both (mark .comma) ident

theorem repetitions_progress_brokenOff :
    (∃ ts s, nextName.read (fun _ => "b") (.inRow brokenOff 1) =
      .matched ts (.inRow brokenOff 3) s ∧ 1 < 3 ∧ 3 ≤ brokenOff.length) ∧
    (∃ r, Rounds (nextName.read fun _ => "b") 1 (.inRow brokenOff 1) r ∧
      1 ≤ brokenOff.length - 1 ∧ (many nextName).read (fun _ => "b") (.inRow brokenOff 1) = r ∧
      (oneOrMore nextName).read (fun _ => "b") (.inRow brokenOff 1) = r) ∧
    Visits (fun _ => "b") identList (.inRow brokenOff 0) (many nextName) (.inRow brokenOff 1) ∧
      (Cursor.inRow brokenOff 1).place < (Cursor.inRow brokenOff 3).place := by
  have hname : ident.read (fun _ => "b") (.inRow brokenOff 0) =
      .matched [.node .ident [.leaf "b"]] (.inRow brokenOff 1) (.reached 1) := by rfl
  have hround : nextName.read (fun _ => "b") (.inRow brokenOff 1) =
      .matched [.leaf "b", .node .ident [.leaf "b"]] (.inRow brokenOff 3) (.reached 3) := by rfl
  have hbroken : nextName.read (fun _ => "b") (.inRow brokenOff 3) =
      .refused ⟨4, [.ident]⟩ := by rfl
  have hmem : nextName ∈ repeated := by decide
  have hvisits : Visits (fun _ => "b") identList (.inRow brokenOff 0) (many nextName)
      (.inRow brokenOff 1) := .inside (.second hname (.here _ _))
  have hrounds := Rounds.more hround (.stop hbroken)
  rcases (repetitions_progress (fun _ => "b") brokenOff 1).2.1 nextName hmem with
    ⟨n, hn, hunique, hone⟩
  rcases (hunique _ _).mp hrounds with ⟨rfl, hread⟩
  rcases (repetitions_progress (fun _ => "b") brokenOff 1).1 nextName (Or.inr hmem) _ _ _ hround
    with ⟨hforth, hinside, _⟩
  refine ⟨⟨_, _, hround, hforth, hinside⟩, ⟨_, hrounds, hn, hread.symm, ?_⟩, hvisits, ?_⟩
  · rw [hone, if_neg (by decide), hread]
  · exact ((repetitions_progress (fun _ => "b") brokenOff 0).2.2 .identList _ _ hvisits).2.2
      _ _ _ hround

end Grammar
end PascalUnit
