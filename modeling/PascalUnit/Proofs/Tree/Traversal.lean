import Mathlib.Logic.Function.Iterate
import PascalUnit.Proofs.Tree.Occurrences

/-!
# Visiting nodes one at a time

The nodes of a tree can be asked for one by one, from a stack of subtrees that are
still to be visited.  Read from its top, the stack holds the rest of the walk: every
pending subtree stands for its own walk, and a visit exchanges a subtree for its
children.

## Occurrences

A stack of subtrees does not tell equal subtrees apart.  An itinerary holds their
places instead and makes the same steps, so that the order of the visits is known by
place.
-/

namespace PascalUnit
namespace Tree

def visited (t : Tree) : List Tree :=
  t.walk.map Prod.snd

/-!
## The walk
-/

theorem map_snd_walkFrom (depth : Nat) (t : Tree) :
    (walkFrom depth t).map Prod.snd = t.visited := by
  have hmeets : ∀ d, ((walkFrom d t).map Prod.snd).map some = (places t).map t.at? := by
    intro d
    have hplaces := congrArg (List.map Prod.snd) (walkFrom_eq_places d t)
    simpa [Function.comp_def] using hplaces
  apply List.map_injective_iff.mpr fun _ _ => Option.some.inj
  rw [hmeets, visited, walk, hmeets]

theorem map_snd_walkAllFrom (depth : Nat) (ts : List Tree) :
    (walkAllFrom depth ts).map Prod.snd = ts.flatMap visited := by
  induction ts with
  | nil => rfl
  | cons t ts ih =>
      rw [walkAllFrom, List.map_append, map_snd_walkFrom, ih, List.flatMap_cons]

theorem visited_eq (t : Tree) : t.visited = t :: t.children.flatMap visited := by
  cases t with
  | leaf text => rfl
  | node r ts =>
      rw [visited, walk, walkFrom, List.map_cons, map_snd_walkAllFrom]
      rfl

mutual
theorem length_walkFrom (depth : Nat) : ∀ t : Tree, (walkFrom depth t).length = t.size
  | leaf text => rfl
  | node r ts => by
      rw [walkFrom, List.length_cons, length_walkAllFrom, size]

theorem length_walkAllFrom (depth : Nat) : ∀ ts : List Tree,
    (walkAllFrom depth ts).length = sizeAll ts
  | [] => rfl
  | t :: ts => by
      rw [walkAllFrom, List.length_append, length_walkFrom, length_walkAllFrom, sizeAll]
end

theorem length_visited (t : Tree) : t.visited.length = t.size := by
  rw [visited, List.length_map, walk, length_walkFrom]

/-!
## Pending subtrees
-/

namespace Pending

def skip (p : Pending) : Pending :=
  match p.next? with
  | none => p
  | some (_, q) => q

def after (n : Nat) (p : Pending) : Pending :=
  skip^[n] p

theorem toList_of_done {p : Pending} (h : p.next? = none) : p.toList = [] := by
  rw [toList]
  split
  · rfl
  · rename_i hnext
    rw [h] at hnext
    cases hnext

theorem toList_of_next {p q : Pending} {t : Tree} (h : p.next? = some (t, q)) :
    p.toList = t :: q.toList := by
  rw [toList]
  split
  · rename_i hnext
    rw [h] at hnext
    cases hnext
  · rename_i hnext
    rw [h] at hnext
    cases hnext
    rfl

/-- Each pending subtree stands for its own walk. -/
theorem toList_eq (p : Pending) : p.toList = p.stack.flatMap visited := by
  fun_induction toList p with
  | case1 p hnext =>
      rcases p with ⟨stack⟩
      cases stack with
      | nil => rfl
      | cons t ts => cases hnext
  | case2 p t q hnext ih =>
      rcases p with ⟨stack⟩
      cases stack with
      | nil => cases hnext
      | cons u us =>
          cases hnext
          rw [ih, List.flatMap_append, List.flatMap_cons, visited_eq t, List.cons_append]

theorem toList_start (t : Tree) : (start t).toList = t.visited := by
  rw [toList_eq, start, List.flatMap_singleton]

theorem map_fst_next? (p : Pending) : p.next?.map Prod.fst = p.toList.head? := by
  cases hnext : p.next? with
  | none =>
      rw [toList_of_done hnext]
      rfl
  | some x =>
      rw [toList_of_next hnext]
      rfl

theorem toList_skip (p : Pending) : p.skip.toList = p.toList.tail := by
  cases hnext : p.next? with
  | none => simp only [skip, hnext, toList_of_done hnext, List.tail_nil]
  | some x => simp only [skip, hnext, toList_of_next hnext, List.tail_cons]

theorem after_succ (n : Nat) (p : Pending) : p.after (n + 1) = (p.after n).skip :=
  Function.iterate_succ_apply' skip n p

theorem toList_after (n : Nat) (p : Pending) : (p.after n).toList = p.toList.drop n := by
  induction n with
  | zero => rfl
  | succ n ih => rw [after_succ, toList_skip, ih, List.tail_drop]

theorem map_fst_next?_after (n : Nat) (p : Pending) :
    (p.after n).next?.map Prod.fst = p.toList[n]? := by
  rw [map_fst_next?, toList_after, List.head?_drop]

end Pending

/-!
## Itineraries
-/

def childPlaces (t : Tree) (o : List Nat) : List (List Nat) :=
  match t.at? o with
  | none => []
  | some u => (List.range u.children.length).map fun i => o ++ [i]

def placesAt (t : Tree) (o : List Nat) : List (List Nat) :=
  match t.at? o with
  | none => []
  | some u => u.places.map (o ++ ·)

theorem at?_append (t : Tree) (a b : List Nat) :
    t.at? (a ++ b) = (t.at? a).bind fun u => u.at? b := by
  induction a generalizing t with
  | nil => rw [List.nil_append, at?_nil, Option.bind_some]
  | cons i a ih =>
      rw [List.cons_append, at?_cons, at?_cons, Option.bind_assoc]
      simp only [ih]

theorem placesFrom_eq (i : Nat) (ts : List Tree) :
    placesFrom i ts = (ts.zipIdx i).flatMap fun x => (places x.1).map (x.2 :: ·) := by
  induction ts generalizing i with
  | nil => rfl
  | cons t ts ih => rw [placesFrom, ih, List.zipIdx_cons, List.flatMap_cons]

theorem places_eq (t : Tree) :
    t.places = [] :: t.children.zipIdx.flatMap fun x => (places x.1).map (x.2 :: ·) := by
  cases t with
  | leaf text => rfl
  | node r ts => rw [places, placesFrom_eq, children]

theorem childPlaces_eq {t u : Tree} {o : List Nat} (h : t.at? o = some u) :
    t.childPlaces o = u.children.zipIdx.map fun x => o ++ [x.2] := by
  simp only [childPlaces, h]
  rw [List.range_eq_range', ← List.zipIdx_map_snd, List.map_map]
  rfl

theorem at?_child {t u : Tree} {o : List Nat} (h : t.at? o = some u) {x : Tree × Nat}
    (hx : x ∈ u.children.zipIdx) : t.at? (o ++ [x.2]) = some x.1 := by
  have hat := List.mem_zipIdx_iff_getElem?.mp hx
  rw [at?_append, h, Option.bind_some, at?_cons, hat]
  rfl

theorem map_at?_childPlaces {t u : Tree} {o : List Nat} (h : t.at? o = some u) :
    (t.childPlaces o).map t.at? = u.children.map some := by
  calc (t.childPlaces o).map t.at?
      = u.children.zipIdx.map fun x => t.at? (o ++ [x.2]) := by
        rw [childPlaces_eq h, List.map_map]
        rfl
    _ = u.children.zipIdx.map fun x => some x.1 :=
        List.map_congr_left fun x hx => at?_child h hx
    _ = u.children.map some := by
        conv_rhs => rw [← List.zipIdx_map_fst 0 u.children, List.map_map]
        rfl

theorem placesAt_eq {t u : Tree} {o : List Nat} (h : t.at? o = some u) :
    t.placesAt o = o :: (t.childPlaces o).flatMap t.placesAt := by
  have hbelow : ∀ x ∈ u.children.zipIdx,
      ((places x.1).map (x.2 :: ·)).map (o ++ ·) = t.placesAt (o ++ [x.2]) := by
    intro x hx
    simp [placesAt, at?_child h hx, Function.comp_def]
  rw [childPlaces_eq h, List.flatMap_map, ← List.flatMap_congr hbelow]
  simp only [placesAt, h]
  rw [places_eq, List.map_cons, List.append_nil, List.map_flatMap]

/-- Places still to be visited, the next one last. -/
structure Itinerary where
  stack : List (List Nat)
  deriving Repr

namespace Itinerary

def start : Itinerary := ⟨[[]]⟩

/--
The next place and what is left after it: the place is taken off the end, and the
places of its children are put there, the last child first.
-/
def next? (t : Tree) (s : Itinerary) : Option (List Nat × Itinerary) :=
  s.stack.getLast?.map fun o => (o, ⟨s.stack.dropLast ++ (t.childPlaces o).reverse⟩)

def skip (t : Tree) (s : Itinerary) : Itinerary :=
  match s.next? t with
  | none => s
  | some (_, s') => s'

def after (t : Tree) (n : Nat) (s : Itinerary) : Itinerary :=
  (skip t)^[n] s

def Leads (t : Tree) (s : Itinerary) (p : Pending) : Prop :=
  s.stack.reverse.map t.at? = p.stack.map some

def upcoming (t : Tree) (s : Itinerary) : List (List Nat) :=
  s.stack.reverse.flatMap t.placesAt

variable {t : Tree} {s : Itinerary} {p : Pending}

theorem leads_start (t : Tree) : start.Leads t (Pending.start t) := rfl

/-- An itinerary and the pending subtrees it leads to run out together or step together. -/
theorem Leads.next_cases (h : s.Leads t p) :
    (s.next? t = none ∧ p.next? = none ∧ s.upcoming t = []) ∨
      ∃ o u s' q, s.next? t = some (o, s') ∧ p.next? = some (u, q) ∧ t.at? o = some u ∧
        s'.Leads t q ∧ s.upcoming t = o :: s'.upcoming t := by
  rcases s with ⟨stack⟩
  rcases p with ⟨subtrees⟩
  rcases List.eq_nil_or_concat stack with rfl | ⟨rest, o, rfl⟩
  · left
    cases subtrees with
    | nil => exact ⟨rfl, rfl, rfl⟩
    | cons u us => cases h
  · right
    simp only [List.concat_eq_append, Leads, List.reverse_append, List.reverse_singleton,
      List.singleton_append, List.map_cons] at h
    cases subtrees with
    | nil => cases h
    | cons u us =>
        rcases List.cons.inj h with ⟨hat, hrest⟩
        refine ⟨o, u, ⟨rest ++ (t.childPlaces o).reverse⟩, ⟨u.children ++ us⟩, ?_, rfl, hat, ?_, ?_⟩
        · simp [next?]
        · simp [Leads, hrest, map_at?_childPlaces hat]
        · simp [upcoming, placesAt_eq hat]

theorem Leads.skip (h : s.Leads t p) : (s.skip t).Leads t p.skip := by
  rcases h.next_cases with ⟨hs, hp, _⟩ | ⟨o, u, s', q, hs, hp, _, hleads, _⟩
  · simp only [Itinerary.skip, Pending.skip, hs, hp]
    exact h
  · simp only [Itinerary.skip, Pending.skip, hs, hp]
    exact hleads

theorem Leads.upcoming_skip (h : s.Leads t p) :
    (s.skip t).upcoming t = (s.upcoming t).tail := by
  rcases h.next_cases with ⟨hs, _, hend⟩ | ⟨o, u, s', q, hs, _, _, _, hnext⟩
  · simp only [Itinerary.skip, hs, hend, List.tail_nil]
  · simp only [Itinerary.skip, hs, hnext, List.tail_cons]

theorem Leads.map_fst_next? (h : s.Leads t p) :
    (s.next? t).map Prod.fst = (s.upcoming t).head? := by
  rcases h.next_cases with ⟨hs, _, hend⟩ | ⟨o, u, s', q, hs, _, _, _, hnext⟩
  · rw [hs, hend]
    rfl
  · rw [hs, hnext]
    rfl

theorem after_succ (t : Tree) (n : Nat) (s : Itinerary) :
    s.after t (n + 1) = (s.after t n).skip t :=
  Function.iterate_succ_apply' (skip t) n s

/-- An itinerary keeps leading to the pending subtrees, and comes to its places in order. -/
theorem Leads.after (h : s.Leads t p) (n : Nat) :
    (s.after t n).Leads t (p.after n) ∧ (s.after t n).upcoming t = (s.upcoming t).drop n := by
  induction n with
  | zero => exact ⟨h, rfl⟩
  | succ n ih =>
      rw [after_succ, Pending.after_succ]
      refine ⟨ih.1.skip, ?_⟩
      rw [ih.1.upcoming_skip, ih.2, List.tail_drop]

theorem upcoming_start (t : Tree) : start.upcoming t = t.places := by
  simp [start, upcoming, placesAt]

end Itinerary

/-!
## Agreement
-/

/--
The nodes of a tree, asked for one at a time, are those of its walk.  Places tell
occurrences apart: the walk meets what stands at the places of the tree, in order and
each once, and an itinerary of places makes the same steps.
-/
structure TraversedInOrder (t : Tree) : Prop where
  walked : t.walk.map (fun x => (x.1, some x.2)) = t.places.map fun o => (o.length, t.at? o)
  nodup : t.places.Nodup
  collected : t.descendants = t.walk.map Prod.snd
  /-- What a request gives when `n` were made before it. -/
  given : ∀ n, ((Pending.start t).after n).next?.map Prod.fst = (t.walk.map Prod.snd)[n]?
  remaining : ∀ n, ((Pending.start t).after n).toList = (t.walk.map Prod.snd).drop n
  /-- There is a node for as many requests as the tree has nodes. -/
  exhausted : ∀ n, ((Pending.start t).after n).next? = none ↔ t.size ≤ n
  /-- The stack of subtrees is the stack of what stands at the places of the itinerary. -/
  followed : ∀ n, (Itinerary.start.after t n).Leads t ((Pending.start t).after n)
  visitedAt : ∀ n, ((Itinerary.start.after t n).next? t).map Prod.fst = t.places[n]?

theorem descendants_follow_walk (t : Tree) : t.TraversedInOrder where
  walked := walk_eq_places t
  nodup := nodup_places t
  collected := Pending.toList_start t
  given := by
    intro n
    rw [Pending.map_fst_next?_after, Pending.toList_start, visited]
  remaining := by
    intro n
    rw [Pending.toList_after, Pending.toList_start, visited]
  exhausted := by
    intro n
    rw [← length_visited, ← Pending.toList_start, ← List.getElem?_eq_none_iff,
      ← Pending.map_fst_next?_after, Option.map_eq_none_iff]
  followed := fun n => ((Itinerary.leads_start t).after n).1
  visitedAt := by
    intro n
    rcases (Itinerary.leads_start t).after n with ⟨hleads, hupcoming⟩
    rw [hleads.map_fst_next?, hupcoming, Itinerary.upcoming_start, List.head?_drop]

end Tree
end PascalUnit
