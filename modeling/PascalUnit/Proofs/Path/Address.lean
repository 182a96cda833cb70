import PascalUnit.Path.Query
import PascalUnit.Proofs.Path.Printing
import PascalUnit.Proofs.Tree.Occurrences

/-!
# Every node has one address

The address of a node is the path that gives, from the root down, the rule of each
node on the way with its number among the siblings of that rule.  Following it
leads to that very node: exchange the node for another one of its rule, and the
other one is found.  Conversely, a path with an index at every segment that can be
followed at all is the address of exactly one node.
-/

namespace PascalUnit

/-!
## Looking for a child
-/

namespace Path

theorem seek_eq_found_iff {r : Rule} {index passed : Nat} {ts : List Tree} {t : Tree} :
    seek r index passed ts = .found t ↔
      ∃ i, ts[i]? = some t ∧ t.isNodeOf r = true ∧
        passed + (ts.take i).countP (Tree.isNodeOf r) = index := by
  induction ts generalizing passed with
  | nil => simp [seek]
  | cons u ts ih =>
      -- the node stands first or among the rest
      rw [seek, ← Nat.or_exists_add_one]
      simp only [List.getElem?_cons_zero, List.getElem?_cons_succ, List.take_zero,
        List.take_succ_cons, List.countP_nil, List.countP_cons, Option.some.injEq, Nat.add_zero]
      by_cases hu : u.isNodeOf r = true
      · by_cases hpassed : passed = index
        · simp only [if_pos hu, if_pos hpassed, Sought.found.injEq]
          constructor
          · intro h
            exact Or.inl ⟨h, h ▸ hu, hpassed⟩
          · intro h
            rcases h with h | ⟨i, _, _, hcount⟩
            · exact h.1
            · omega
        · have hrest := @ih (passed + 1)
          simp only [Nat.add_right_comm passed 1] at hrest
          have hfirst : ¬ (u = t ∧ t.isNodeOf r = true ∧ passed = index) := by
            intro h
            exact hpassed h.2.2
          simp only [if_pos hu, if_neg hpassed, hrest, hfirst, false_or, Nat.add_assoc]
      · have hfirst : ¬ (u = t ∧ t.isNodeOf r = true ∧ passed = index) := by
          intro h
          exact hu (h.1 ▸ h.2.1)
        simp only [if_neg hu, ih, hfirst, false_or, Nat.add_zero]

end Path

namespace Tree

theorem isNodeOf_node {r q : Rule} {ts : List Tree} : (node q ts).isNodeOf r = true ↔ q = r := by
  simp [isNodeOf, rule?]

theorem countP_take_lt {r : Rule} {ts : List Tree} {t : Tree} {i j : Nat} (hij : i < j)
    (hi : ts[i]? = some t) (ht : t.isNodeOf r = true) :
    (ts.take i).countP (isNodeOf r) < (ts.take j).countP (isNodeOf r) := by
  have hprefix : ts.take (i + 1) <+: ts.take j := List.take_prefix_take_left hij
  have hmore := hprefix.sublist.countP_le (p := isNodeOf r)
  rw [List.take_add_one, hi, List.countP_append] at hmore
  simp [ht] at hmore
  omega

/-!
## Addresses
-/

/--
The segments that lead from a tree to a node below it.  The index of a segment is
the number of earlier siblings of the same rule.
-/
def trail : Tree → List Nat → List Segment
  | _, [] => []
  | t, i :: o =>
      match t.children[i]? with
      | some (node r us) =>
          ⟨r, some ((t.children.take i).countP (isNodeOf r))⟩ :: trail (node r us) o
      | _ => []

def address (root : Tree) (o : List Nat) : Path :=
  match root.rule? with
  | some r => ⟨⟨r, some 0⟩ :: root.trail o⟩
  | none => ⟨[]⟩

theorem trail_cons {t : Tree} {i : Nat} {r : Rule} {us : List Tree} (o : List Nat)
    (h : t.children[i]? = some (node r us)) :
    t.trail (i :: o) =
      ⟨r, some ((t.children.take i).countP (isNodeOf r))⟩ :: (node r us).trail o := by
  rw [trail]
  simp only [h]

theorem exists_node_of_at? {t : Tree} {i : Nat} {o : List Nat} {q : Rule} {vs : List Tree}
    (h : t.at? (i :: o) = some (node q vs)) :
    ∃ r us, t.children[i]? = some (node r us) ∧ (node r us).at? o = some (node q vs) := by
  rcases at?_cons_eq_some_iff.mp h with ⟨c, hc, hbelow⟩
  cases c with
  | node r us => exact ⟨r, us, hc, hbelow⟩
  | leaf text =>
      cases o with
      | nil => cases hbelow
      | cons j o => simp [children] at hbelow

theorem descend_trail {t : Tree} {o : List Nat} {q : Rule} {vs : List Tree}
    (h : t.at? o = some (node q vs)) (depth : Nat) :
    Path.descend depth t (t.trail o) = .ok (node q vs) := by
  induction o generalizing t depth with
  | nil =>
      cases h
      rfl
  | cons i o ih =>
      rcases exists_node_of_at? h with ⟨r, us, hc, hbelow⟩
      rw [trail_cons o hc]
      cases t with
      | leaf text => simp [children] at hc
      | node p ts =>
          have hseek : Path.seek r ((ts.take i).countP (isNodeOf r)) 0 ts = .found (node r us) :=
            Path.seek_eq_found_iff.mpr ⟨i, hc, isNodeOf_node.mpr rfl, Nat.zero_add _⟩
          rw [Path.descend]
          simp only [children, Segment.position, Option.getD_some, hseek]
          exact ih hbelow (depth + 1)

/-- Segments with indices that can be followed are the trail of the node they lead to. -/
theorem exists_trail_of_descend {t u : Tree} {ss : List Segment} {depth : Nat}
    (ht : t.rule?.isSome = true) (hindexed : ∀ s ∈ ss, s.index.isSome = true)
    (h : Path.descend depth t ss = .ok u) :
    ∃ o q vs, u = node q vs ∧ t.at? o = some (node q vs) ∧ t.trail o = ss := by
  induction ss generalizing t depth with
  | nil =>
      cases h
      cases u with
      | leaf text => cases ht
      | node q vs => exact ⟨[], q, vs, rfl, rfl, rfl⟩
  | cons s ss ih =>
      rw [List.forall_mem_cons] at hindexed
      cases t with
      | leaf text => cases ht
      | node p ts =>
          rw [Path.descend] at h
          split at h
          · rename_i c hseek
            rcases Path.seek_eq_found_iff.mp hseek with ⟨i, hc, hrule, hcount⟩
            cases c with
            | leaf text => cases hrule
            | node r us =>
                rcases ih rfl hindexed.2 h with ⟨o, q, vs, rfl, hat, htrail⟩
                refine ⟨i :: o, q, vs, rfl, at?_cons_eq_some_iff.mpr ⟨_, hc, hat⟩, ?_⟩
                rw [trail_cons o hc, htrail]
                rcases s with ⟨rule, index⟩
                rcases Option.isSome_iff_exists.mp hindexed.1 with ⟨n, hn⟩
                cases isNodeOf_node.mp hrule
                cases hn
                rw [Nat.zero_add] at hcount
                rw [children, hcount]
                rfl
          · cases h
          · cases h

theorem trail_injective {t : Tree} {o o' : List Nat} {q q' : Rule} {vs vs' : List Tree}
    (h : t.at? o = some (node q vs)) (h' : t.at? o' = some (node q' vs'))
    (htrail : t.trail o = t.trail o') : o = o' := by
  induction o generalizing t o' with
  | nil =>
      cases o' with
      | nil => rfl
      | cons i' o' =>
          rcases exists_node_of_at? h' with ⟨r, us, hc, _⟩
          rw [trail_cons o' hc] at htrail
          cases htrail
  | cons i o ih =>
      rcases exists_node_of_at? h with ⟨r, us, hc, hbelow⟩
      rw [trail_cons o hc] at htrail
      cases o' with
      | nil => cases htrail
      | cons i' o' =>
          rcases exists_node_of_at? h' with ⟨r', us', hc', hbelow'⟩
          rw [trail_cons o' hc'] at htrail
          simp only [List.cons.injEq, Segment.mk.injEq, Option.some.injEq] at htrail
          rcases htrail with ⟨⟨rfl, hcount⟩, hmore⟩
          have hi : i = i' := by
            rcases Nat.lt_trichotomy i i' with hlt | heq | hgt
            · have hless := countP_take_lt hlt hc (isNodeOf_node.mpr rfl)
              omega
            · exact heq
            · have hless := countP_take_lt hgt hc' (isNodeOf_node.mpr rfl)
              omega
          subst hi
          rw [hc] at hc'
          cases hc'
          rw [ih hbelow hbelow' hmore]

/-- The trail of a node does not change when another one of its rule takes its place. -/
theorem trail_put {t : Tree} {o : List Nat} {q : Rule} {vs : List Tree}
    (h : t.at? o = some (node q vs)) (us : List Tree) :
    (t.put o (node q us)).trail o = t.trail o := by
  induction o generalizing t with
  | nil => rfl
  | cons i o ih =>
      rcases exists_node_of_at? h with ⟨r, ws, hc, hbelow⟩
      have hrule : ((node r ws).put o (node q us)).rule? = some r := rule?_put hbelow rfl
      cases hchild : (node r ws).put o (node q us) with
      | leaf text =>
          rw [hchild] at hrule
          cases hrule
      | node r' ws' =>
          rw [hchild] at hrule
          cases hrule
          have hc' : (t.put (i :: o) (node q us)).children[i]? = some (node r ws') := by
            rw [children_put_cons, List.getElem?_modify, hc]
            simp [hchild]
          have hmore := ih hbelow
          rw [hchild] at hmore
          have hearlier : ((t.put (i :: o) (node q us)).children).take i = t.children.take i := by
            rw [children_put_cons, List.take_modify,
              List.modify_eq_self (List.length_take_le i t.children)]
          rw [trail_cons o hc', trail_cons o hc, hmore, hearlier]

/-!
## Following an address
-/

theorem address_node (r : Rule) (ts : List Tree) (o : List Nat) :
    (node r ts).address o = ⟨⟨r, some 0⟩ :: (node r ts).trail o⟩ := rfl

theorem exists_root_of_at? {root : Tree} {o : List Nat} {q : Rule} {vs : List Tree}
    (h : root.at? o = some (node q vs)) : ∃ r ts, root = node r ts := by
  cases root with
  | node r ts => exact ⟨r, ts, rfl⟩
  | leaf text =>
      cases o with
      | nil => cases h
      | cons i o => simp [children] at h

theorem evaluate_address {root : Tree} {o : List Nat} {q : Rule} {vs : List Tree}
    (h : root.at? o = some (node q vs)) :
    (root.address o).evaluate root = .ok (node q vs) := by
  rcases exists_root_of_at? h with ⟨r, ts, rfl⟩
  rw [address_node, Path.evaluate]
  simp only [Segment.position, Option.getD_some, ne_eq, not_true_eq_false, if_false,
    Nat.lt_irrefl, gt_iff_lt]
  exact descend_trail h 1

theorem parse_address {root : Tree} {o : List Nat} {q : Rule} {vs : List Tree}
    (h : root.at? o = some (node q vs))
    (hlimit : ∀ s ∈ (root.address o).segments, s.position < Text.countLimit) :
    Path.parse (root.address o).render = .ok (root.address o) := by
  refine Path.parse_render ?_ hlimit
  rcases exists_root_of_at? h with ⟨r, ts, rfl⟩
  rw [address_node]
  simp

theorem lookup_address {root : Tree} {o : List Nat} {q : Rule} {vs : List Tree}
    (h : root.at? o = some (node q vs))
    (hlimit : ∀ s ∈ (root.address o).segments, s.position < Text.countLimit) :
    root.lookup (root.address o).render = .ok (node q vs) := by
  rw [lookup, parse_address h hlimit]
  simp only [evaluate_address h]

theorem address_put {root : Tree} {o : List Nat} {q : Rule} {vs : List Tree}
    (h : root.at? o = some (node q vs)) (us : List Tree) :
    (root.put o (node q us)).address o = root.address o := by
  have hrule : (root.put o (node q us)).rule? = root.rule? := rule?_put h rfl
  rw [address, address, hrule, trail_put h us]

theorem exists_address_of_evaluate {root t : Tree} {p : Path} (hne : p.segments ≠ [])
    (hindexed : ∀ s ∈ p.segments, s.index.isSome = true) (h : p.evaluate root = .ok t) :
    ∃ o q vs, t = node q vs ∧ root.at? o = some (node q vs) ∧ root.address o = p := by
  rcases p with ⟨ss⟩
  cases ss with
  | nil => exact absurd rfl hne
  | cons s ss =>
      cases root with
      | leaf text => cases h
      | node r ts =>
          rw [Path.evaluate] at h
          simp only at h
          split at h
          · cases h
          · rename_i hrule
            split at h
            · cases h
            · rename_i hposition
              rw [List.forall_mem_cons] at hindexed
              rcases exists_trail_of_descend rfl hindexed.2 h with ⟨o, q, vs, rfl, hat, htrail⟩
              refine ⟨o, q, vs, rfl, hat, ?_⟩
              rcases s with ⟨rule, index⟩
              rcases Option.isSome_iff_exists.mp hindexed.1 with ⟨n, hn⟩
              cases hn
              have hzero : n = 0 := Nat.eq_zero_of_not_pos hposition
              rw [address_node, htrail, hzero, not_not.mp hrule]

def HasNodeAt (root : Tree) (o : List Nat) : Prop :=
  ∃ q vs, root.at? o = some (node q vs)

/-- The nodes of a tree and its fully indexed paths correspond one to one. -/
structure Addressable (root : Tree) : Prop where
  /-- The walk meets what stands at the places, in order. -/
  visited : root.walk.map (fun x => (x.1, some x.2)) =
    root.places.map fun o => (o.length, root.at? o)
  /-- Places tell occurrences apart. -/
  nodup : root.places.Nodup
  mem_places : ∀ o, o ∈ root.places ↔ (root.at? o).isSome = true
  /-- A written address is well formed and leads to the node at its place. -/
  found : ∀ o q vs, root.at? o = some (node q vs) →
    (∀ s ∈ (root.address o).segments, s.position < Text.countLimit) →
      Path.parse (root.address o).render = .ok (root.address o) ∧
        root.lookup (root.address o).render = .ok (node q vs)
  /-- It leads to that occurrence, since it leads to whatever takes its place. -/
  exchanged : ∀ o q vs us, root.at? o = some (node q vs) →
    (∀ s ∈ (root.address o).segments, s.position < Text.countLimit) →
      (root.put o (node q us)).lookup (root.address o).render = .ok (node q us)
  distinct : ∀ o o', root.HasNodeAt o → root.HasNodeAt o' →
    root.address o = root.address o' → o = o'
  /--
  A fully indexed path that can be followed is the address of one node.  Every path
  that is read has a segment, by `Path.segments_ne_nil_of_parse`.
  -/
  sole : ∀ p t, p.segments ≠ [] → (∀ s ∈ p.segments, s.index.isSome = true) →
    p.evaluate root = .ok t →
      ∃ o, root.HasNodeAt o ∧ root.at? o = some t ∧ root.address o = p ∧
        ∀ o', root.HasNodeAt o' → root.address o' = p → o' = o

theorem address_injective {root : Tree} {o o' : List Nat} (h : root.HasNodeAt o)
    (h' : root.HasNodeAt o') (heq : root.address o = root.address o') : o = o' := by
  rcases h with ⟨q, vs, h⟩
  rcases h' with ⟨q', vs', h'⟩
  rcases exists_root_of_at? h with ⟨r, ts, rfl⟩
  simp only [address_node, Path.mk.injEq, List.cons.injEq, true_and] at heq
  exact trail_injective h h' heq

/-- Every tree whose root is a node is addressable. -/
theorem addressable_node (r : Rule) (ts : List Tree) : (node r ts).Addressable where
  visited := by
    have hwalk := walkFrom_eq_places 0 (node r ts)
    simp only [Nat.zero_add] at hwalk
    exact hwalk
  nodup := nodup_places _
  mem_places := fun _ => mem_places
  found := by
    intro o q vs h hlimit
    exact ⟨parse_address h hlimit, lookup_address h hlimit⟩
  exchanged := by
    intro o q vs us h hlimit
    rw [← address_put h us] at hlimit ⊢
    exact lookup_address (at?_put h (node q us)) hlimit
  distinct := fun _ _ h h' heq => address_injective h h' heq
  sole := by
    intro p t hne hindexed h
    rcases exists_address_of_evaluate hne hindexed h with ⟨o, q, vs, rfl, hat, haddress⟩
    refine ⟨o, ⟨q, vs, hat⟩, hat, haddress, ?_⟩
    intro o' hnode haddress'
    exact address_injective hnode ⟨q, vs, hat⟩ (haddress'.trans haddress.symm)

/-- Two names that look alike. -/
def twins : Tree :=
  .node .identList [.node .ident [.leaf "a"], .leaf ",", .node .ident [.leaf "a"]]

theorem addressable_twins :
    twins.at? [2] = some (.node .ident [.leaf "a"]) ∧
      (twins.address [2]).render = "/identList[0]/ident[1]" ∧
      (twins.put [2] (.node .ident [])).lookup "/identList[0]/ident[1]" = .ok (.node .ident []) := by
  have hat : twins.at? [2] = some (.node .ident [.leaf "a"]) := rfl
  have hrender : (twins.address [2]).render = "/identList[0]/ident[1]" := by decide +kernel
  have hlimit : ∀ s ∈ (twins.address [2]).segments, s.position < Text.countLimit := by decide
  have hfound := (addressable_node _ _).exchanged [2] .ident [.leaf "a"] [] hat hlimit
  rw [← twins, hrender] at hfound
  exact ⟨hat, hrender, hfound⟩

end Tree
end PascalUnit
