import Mathlib.Data.List.Nodup
import PascalUnit.Tree

/-!
# Places in a tree

Equal subtrees can occur in a tree more than once.  An occurrence is told by its
place, the row of child indices that leads to it from the root.  `places` lists the
places of a tree in the order in which `walk` meets the subtrees there.

## Exchange

`put` exchanges the subtree at a place and leaves all else as it is.  A question
about a tree is answered from one occurrence alone when exchanging what stands
there exchanges the answer.
-/

namespace PascalUnit
namespace Tree

def at? : Tree → List Nat → Option Tree
  | t, [] => some t
  | t, i :: o => t.children[i]?.bind fun c => at? c o

/-- The tree with another subtree at a place; a place outside of it changes nothing. -/
def put : Tree → List Nat → Tree → Tree
  | _, [], u => u
  | leaf text, _ :: _, _ => leaf text
  | node r ts, i :: o, u => node r (ts.modify i fun c => put c o u)

mutual
def places : Tree → List (List Nat)
  | leaf _ => [[]]
  | node _ ts => [] :: placesFrom 0 ts

def placesFrom (i : Nat) : List Tree → List (List Nat)
  | [] => []
  | t :: ts => (places t).map (i :: ·) ++ placesFrom (i + 1) ts
end

@[simp] theorem at?_nil (t : Tree) : t.at? [] = some t := by
  rw [at?]

@[simp] theorem at?_cons (t : Tree) (i : Nat) (o : List Nat) :
    t.at? (i :: o) = t.children[i]?.bind fun c => c.at? o := by
  rw [at?]

theorem at?_cons_eq_some_iff {t u : Tree} {i : Nat} {o : List Nat} :
    t.at? (i :: o) = some u ↔ ∃ c, t.children[i]? = some c ∧ c.at? o = some u := by
  rw [at?_cons, Option.bind_eq_some_iff]

/-!
## Places and the walk
-/

mutual
/-- The walk meets the subtrees at all places, in order, each at the depth of its place. -/
theorem walkFrom_eq_places (depth : Nat) : ∀ t : Tree,
    (walkFrom depth t).map (fun x => (x.1, some x.2)) =
      (places t).map fun o => (depth + o.length, t.at? o)
  | leaf text => by simp [walkFrom, places]
  | node r ts => by
      have hchildren := @walkAllFrom_eq_places depth r ts ts 0 rfl
      simp [walkFrom, places, hchildren]

theorem walkAllFrom_eq_places (depth : Nat) (r : Rule) : ∀ {ts us : List Tree} {i : Nat},
    us.drop i = ts →
      (walkAllFrom (depth + 1) ts).map (fun x => (x.1, some x.2)) =
        (placesFrom i ts).map fun o => (depth + o.length, (node r us).at? o)
  | [], us, i, h => by simp [walkAllFrom, placesFrom]
  | t :: ts, us, i, h => by
      have hat : us[i]? = some t := by
        rw [← List.head?_drop, h]
        rfl
      have hrest : us.drop (i + 1) = ts := by
        rw [← List.tail_drop, h]
        rfl
      have hfirst := walkFrom_eq_places (depth + 1) t
      have hmore := walkAllFrom_eq_places depth r hrest
      rw [walkAllFrom, placesFrom, List.map_append, List.map_append, hfirst, hmore, List.map_map]
      congr 1
      refine List.map_congr_left ?_
      intro o _
      simp [children, hat, Nat.add_comm, Nat.add_left_comm]
end

theorem walk_eq_places (t : Tree) :
    t.walk.map (fun x => (x.1, some x.2)) = t.places.map fun o => (o.length, t.at? o) := by
  have hwalk := walkFrom_eq_places 0 t
  simp only [Nat.zero_add] at hwalk
  exact hwalk

theorem mem_placesFrom {ts : List Tree} {i : Nat} {o : List Nat} :
    o ∈ placesFrom i ts ↔
      ∃ j below c, o = (i + j) :: below ∧ ts[j]? = some c ∧ below ∈ places c := by
  induction ts generalizing i with
  | nil => simp [placesFrom]
  | cons t ts ih =>
      rw [placesFrom, List.mem_append, List.mem_map, ih]
      constructor
      · intro h
        rcases h with ⟨below, hbelow, rfl⟩ | ⟨j, below, c, rfl, hc, hbelow⟩
        · exact ⟨0, below, t, rfl, rfl, hbelow⟩
        · refine ⟨j + 1, below, c, ?_, hc, hbelow⟩
          rw [Nat.add_right_comm, Nat.add_assoc]
      · intro h
        rcases h with ⟨j, below, c, rfl, hc, hbelow⟩
        cases j with
        | zero =>
            cases hc
            exact Or.inl ⟨below, hbelow, rfl⟩
        | succ j =>
            refine Or.inr ⟨j, below, c, ?_, hc, hbelow⟩
            rw [Nat.add_right_comm, Nat.add_assoc]

theorem mem_places {t : Tree} {o : List Nat} : o ∈ t.places ↔ (t.at? o).isSome = true := by
  induction o generalizing t with
  | nil =>
      cases t with
      | leaf text => simp [places]
      | node r ts => simp [places]
  | cons i o ih =>
      cases t with
      | leaf text => simp [places, children]
      | node r ts =>
          rw [places, List.mem_cons, mem_placesFrom, at?_cons, children]
          cases hc : ts[i]? with
          | none =>
              simp only [reduceCtorEq, false_or, Option.bind_none, Option.isSome_none,
                Bool.false_eq_true, iff_false]
              intro h
              rcases h with ⟨j, below, c, heq, hc', _⟩
              rw [(List.cons.inj heq).1, Nat.zero_add, hc'] at hc
              cases hc
          | some c =>
              rw [Option.bind_some, ← ih]
              simp [hc]

mutual
theorem nodup_places : ∀ t : Tree, (places t).Nodup
  | leaf text => by simp [places]
  | node r ts => by
      rw [places, List.nodup_cons]
      refine ⟨?_, nodup_placesFrom 0 ts⟩
      intro hmem
      rcases mem_placesFrom.mp hmem with ⟨j, below, c, heq, _⟩
      cases heq

theorem nodup_placesFrom (i : Nat) : ∀ ts : List Tree, (placesFrom i ts).Nodup
  | [] => List.nodup_nil
  | t :: ts => by
      rw [placesFrom, List.nodup_append]
      refine ⟨(nodup_places t).map List.cons_injective, nodup_placesFrom (i + 1) ts, ?_⟩
      intro o hfirst o' hmore heq
      rcases List.mem_map.mp hfirst with ⟨below, _, rfl⟩
      rcases mem_placesFrom.mp hmore with ⟨j, below', c, rfl, _⟩
      have hij : i = i + 1 + j := (List.cons.inj heq).1
      omega
end

/-!
## Exchanged subtrees
-/

theorem children_put_cons (t u : Tree) (i : Nat) (o : List Nat) :
    (t.put (i :: o) u).children = t.children.modify i fun c => c.put o u := by
  cases t with
  | leaf text => simp [put, children]
  | node r ts => simp [put, children]

theorem at?_put {t v : Tree} {o : List Nat} (h : t.at? o = some v) (u : Tree) :
    (t.put o u).at? o = some u := by
  induction o generalizing t with
  | nil => simp [put]
  | cons i o ih =>
      rcases at?_cons_eq_some_iff.mp h with ⟨c, hc, hcv⟩
      refine at?_cons_eq_some_iff.mpr ⟨c.put o u, ?_, ih hcv⟩
      rw [children_put_cons, List.getElem?_modify, hc]
      simp

theorem rule?_put {t v : Tree} {o : List Nat} (h : t.at? o = some v) {u : Tree}
    (hrule : u.rule? = v.rule?) : (t.put o u).rule? = t.rule? := by
  cases o with
  | nil =>
      cases h
      simpa [put] using hrule
  | cons i o =>
      cases t with
      | leaf text => rfl
      | node r ts => rfl

end Tree
end PascalUnit
