import PascalUnit.Proofs.Path.Address

/-!
# Following a path and taking children

A path can be followed by hand: check that its first segment names the root, then
take one child after the other with `Tree.child?`.  Following a path does just
that.  Where a child is missing, the error tells how many there are of its rule,
so it is the number of children that `Tree.childrenOf` lists.

## One segment, all segments

`descend_cons` says what one segment does; everything about a row of segments
follows from it by induction along the row.
-/

namespace PascalUnit

/-!
## One segment
-/

namespace Tree

def pick? (t : Tree) (s : Segment) : Option Tree :=
  t.child? s.rule s.position

theorem rule?_of_pick? {t u : Tree} {s : Segment} (h : t.pick? s = some u) :
    u.rule? = some s.rule := by
  have hmem := List.mem_of_getElem? h
  exact of_decide_eq_true (List.mem_filter.mp hmem).2

theorem isSome_rule?_of_pick? {t u : Tree} {s : Segment} (h : t.pick? s = some u) :
    u.rule?.isSome = true := by
  rw [rule?_of_pick? h]
  rfl

theorem pick?_eq_none_iff {t : Tree} {s : Segment} :
    t.pick? s = none ↔ (t.childrenOf s.rule).length ≤ s.position :=
  List.getElem?_eq_none_iff

end Tree

namespace Path

def missing (s : Segment) (depth : Nat) (t : Tree) : QueryError :=
  if (t.childrenOf s.rule).isEmpty then .noMatch s depth
  else .indexOutOfRange s depth s.position (t.childrenOf s.rule).length

/-- Looking for a node by counting finds what stands at its place among its like. -/
theorem seek_eq_getElem? {r : Rule} {index passed : Nat} (ts : List Tree)
    (h : passed ≤ index) :
    seek r index passed ts =
      match (ts.filter (Tree.isNodeOf r))[index - passed]? with
      | some t => .found t
      | none => .missing (passed + (ts.filter (Tree.isNodeOf r)).length) := by
  induction ts generalizing passed with
  | nil => rfl
  | cons t ts ih =>
      rw [seek]
      by_cases ht : t.isNodeOf r = true
      · rw [if_pos ht, List.filter_cons_of_pos ht]
        by_cases hpassed : passed = index
        · rw [if_pos hpassed, hpassed, Nat.sub_self]
          rfl
        · have hindex : index - passed = index - (passed + 1) + 1 := by omega
          rw [if_neg hpassed, ih (by omega), hindex, List.getElem?_cons_succ, List.length_cons]
          simp only [Nat.add_assoc, Nat.add_comm 1]
      · rw [if_neg ht, List.filter_cons_of_neg ht, ih h]

theorem descend_cons {t : Tree} (ht : t.rule?.isSome = true) (depth : Nat) (s : Segment)
    (ss : List Segment) :
    descend depth t (s :: ss) =
      match t.pick? s with
      | some u => descend (depth + 1) u ss
      | none => .error (missing s depth t) := by
  cases t with
  | leaf text => cases ht
  | node r ts =>
      rw [descend, missing, Tree.pick?, Tree.child?, Tree.childrenOf, Tree.children]
      simp only [seek_eq_getElem? ts (Nat.zero_le _), Nat.sub_zero, Nat.zero_add]
      cases (ts.filter (Tree.isNodeOf s.rule))[s.position]? with
      | some u => rfl
      | none =>
          cases ts.filter (Tree.isNodeOf s.rule) with
          | nil => rfl
          | cons u us => rfl

/-!
## All segments
-/

theorem descend_eq_ok_iff {t : Tree} (ht : t.rule?.isSome = true) (depth : Nat)
    (ss : List Segment) (m : Tree) :
    descend depth t ss = .ok m ↔ ss.foldlM Tree.pick? t = some m := by
  induction ss generalizing t depth with
  | nil => simp [descend]
  | cons s ss ih =>
      rw [descend_cons ht, List.foldlM_cons]
      cases hpick : t.pick? s with
      | none => simp
      | some u =>
          exact ih (Tree.isSome_rule?_of_pick? hpick) (depth + 1)

/-- A failure is at the first segment that picks no child of the node reached so far. -/
theorem exists_of_descend_error {t : Tree} (ht : t.rule?.isSome = true) {depth : Nat}
    {ss : List Segment} {e : QueryError} (h : descend depth t ss = .error e) :
    ∃ d s u, ss[d]? = some s ∧ (ss.take d).foldlM Tree.pick? t = some u ∧
      u.pick? s = none ∧ e = missing s (depth + d) u := by
  induction ss generalizing t depth with
  | nil => cases h
  | cons s ss ih =>
      rw [descend_cons ht] at h
      cases hpick : t.pick? s with
      | none =>
          rw [hpick] at h
          cases h
          exact ⟨0, s, t, rfl, rfl, hpick, rfl⟩
      | some u =>
          rw [hpick] at h
          rcases ih (Tree.isSome_rule?_of_pick? hpick) h with ⟨d, s', v, hs', hv, hnone, he⟩
          refine ⟨d + 1, s', v, hs', ?_, hnone, ?_⟩
          · rw [List.take_succ_cons, List.foldlM_cons, hpick]
            exact hv
          · rw [he, Nat.add_assoc, Nat.add_comm 1]

theorem isSome_rule?_of_foldlM {t m : Tree} {ss : List Segment} (ht : t.rule?.isSome = true)
    (h : ss.foldlM Tree.pick? t = some m) : m.rule?.isSome = true := by
  induction ss generalizing t with
  | nil =>
      cases h
      exact ht
  | cons s ss ih =>
      rw [List.foldlM_cons] at h
      rcases Option.bind_eq_some_iff.mp h with ⟨u, hpick, hmore⟩
      exact ih (Tree.isSome_rule?_of_pick? hpick) hmore

/-!
## The whole path
-/

def NamesRoot (root : Tree) (s : Segment) : Prop :=
  root.rule? = some s.rule ∧ s.position = 0

instance (root : Tree) (s : Segment) : Decidable (NamesRoot root s) :=
  inferInstanceAs (Decidable (_ ∧ _))

theorem NamesRoot.isSome_rule? {root : Tree} {s : Segment} (h : NamesRoot root s) :
    root.rule?.isSome = true := by
  rw [h.1]
  rfl

theorem evaluate_of_namesRoot {root : Tree} {s : Segment} (h : NamesRoot root s)
    (ss : List Segment) : evaluate root ⟨s :: ss⟩ = descend 1 root ss := by
  rcases h with ⟨hrule, hposition⟩
  cases root with
  | leaf text => cases hrule
  | node r ts =>
      cases hrule
      simp only [evaluate, ne_eq, not_true_eq_false, if_false, hposition, gt_iff_lt,
        Nat.lt_irrefl]

/-- Why the first segment does not name the root. -/
inductive RootFault (root : Tree) (s : Segment) : QueryError → Prop where
  | leaf : root.rule? = none → RootFault root s (.leafReached s 0)
  | mismatch {r : Rule} :
      root.rule? = some r → r ≠ s.rule → RootFault root s (.rootMismatch s r)
  | index :
      root.rule? = some s.rule → 0 < s.position →
        RootFault root s (.indexOutOfRange s 0 s.position 1)

theorem RootFault.place {root : Tree} {s : Segment} {e : QueryError} (h : RootFault root s e) :
    e.depth = 0 ∧ e.segment = s := by
  cases h <;> exact ⟨rfl, rfl⟩

theorem exists_rootFault {root : Tree} {s : Segment} (h : ¬ NamesRoot root s)
    (ss : List Segment) : ∃ e, evaluate root ⟨s :: ss⟩ = .error e ∧ RootFault root s e := by
  cases root with
  | leaf text => exact ⟨_, rfl, .leaf rfl⟩
  | node r ts =>
      by_cases hrule : r = s.rule
      · have hposition : 0 < s.position := by
          apply Nat.pos_of_ne_zero
          intro hzero
          exact h ⟨congrArg some hrule, hzero⟩
        refine ⟨_, ?_, .index (congrArg some hrule) hposition⟩
        simp only [evaluate, hrule, ne_eq, not_true_eq_false, if_false, gt_iff_lt,
          if_pos hposition]
      · refine ⟨_, ?_, .mismatch rfl hrule⟩
        simp only [evaluate, ne_eq, hrule, not_false_eq_true, if_true]

inductive ChildFault (t : Tree) (s : Segment) (depth : Nat) : QueryError → Prop where
  | none : t.childrenOf s.rule = [] → ChildFault t s depth (.noMatch s depth)
  | index :
      t.childrenOf s.rule ≠ [] → (t.childrenOf s.rule).length ≤ s.position →
        ChildFault t s depth
          (.indexOutOfRange s depth s.position (t.childrenOf s.rule).length)

theorem ChildFault.place {t : Tree} {s : Segment} {depth : Nat} {e : QueryError}
    (h : ChildFault t s depth e) : e.depth = depth ∧ e.segment = s := by
  cases h <;> exact ⟨rfl, rfl⟩

theorem childFault_missing {t : Tree} {s : Segment} (h : t.pick? s = none) (depth : Nat) :
    ChildFault t s depth (missing s depth t) := by
  rw [missing]
  split
  · rename_i hempty
    exact .none (List.isEmpty_iff.mp hempty)
  · rename_i hsome
    exact .index (fun hnil => hsome (List.isEmpty_iff.mpr hnil)) (Tree.pick?_eq_none_iff.mp h)

/-- The node that the segments of a path up to depth `d` lead to, child by child. -/
def reached? (root : Tree) (s : Segment) (ss : List Segment) (d : Nat) : Option Tree :=
  if NamesRoot root s then (ss.take d).foldlM Tree.pick? root else none

theorem reached?_of_namesRoot {root : Tree} {s : Segment} (h : NamesRoot root s)
    (ss : List Segment) (d : Nat) :
    reached? root s ss d = (ss.take d).foldlM Tree.pick? root :=
  if_pos h

theorem isSome_reached?_of_le {root t : Tree} {s : Segment} {ss : List Segment} {d d' : Nat}
    (h : reached? root s ss d = some t) (hle : d' ≤ d) :
    (reached? root s ss d').isSome = true := by
  by_cases hroot : NamesRoot root s
  · rw [reached?_of_namesRoot hroot] at h ⊢
    rw [← List.take_append_drop d' (ss.take d), List.take_take, Nat.min_eq_left hle,
      List.foldlM_append] at h
    rcases Option.bind_eq_some_iff.mp h with ⟨u, hu, _⟩
    rw [hu]
    rfl
  · rw [reached?, if_neg hroot] at h
    cases h

/--
Following a path agrees with taking children by hand, and an error tells the first
step that cannot be taken.
-/
structure AgreesWithChildren (root : Tree) (s : Segment) (ss : List Segment) : Prop where
  found : ∀ m, evaluate root ⟨s :: ss⟩ = .ok m ↔
    root.rule? = some s.rule ∧ s.position = 0 ∧
      ss.foldlM (fun t s => t.child? s.rule s.position) root = some m
  /-- A path never leads to a leaf. -/
  node : ∀ m, evaluate root ⟨s :: ss⟩ = .ok m → ∃ r ts, m = .node r ts
  /-- The segment of an error stands at its depth, the least to which nothing leads. -/
  first : ∀ e, evaluate root ⟨s :: ss⟩ = .error e →
    (s :: ss)[e.depth]? = some e.segment ∧ reached? root s ss e.depth = none ∧
      ∀ d < e.depth, (reached? root s ss d).isSome = true
  atRoot : ∀ e, evaluate root ⟨s :: ss⟩ = .error e → e.depth = 0 → RootFault root s e
  below : ∀ e d, evaluate root ⟨s :: ss⟩ = .error e → e.depth = d + 1 →
    ∃ t, reached? root s ss d = some t ∧ ChildFault t e.segment (d + 1) e

theorem exists_of_evaluate_error {root : Tree} {s : Segment} {ss : List Segment}
    {e : QueryError} (h : evaluate root ⟨s :: ss⟩ = .error e) :
    (¬ NamesRoot root s ∧ RootFault root s e) ∨
      ∃ d u t, NamesRoot root s ∧ ss[d]? = some u ∧ reached? root s ss d = some t ∧
        t.pick? u = none ∧ ChildFault t u (d + 1) e := by
  by_cases hroot : NamesRoot root s
  · rw [evaluate_of_namesRoot hroot] at h
    rcases exists_of_descend_error hroot.isSome_rule? h with ⟨d, u, t, hu, ht, hnone, he⟩
    refine Or.inr ⟨d, u, t, hroot, hu, ?_, hnone, ?_⟩
    · rw [reached?_of_namesRoot hroot, ht]
    · rw [he, Nat.add_comm 1]
      exact childFault_missing hnone (d + 1)
  · rcases exists_rootFault hroot ss with ⟨e', he', hfault⟩
    rw [he'] at h
    cases h
    exact Or.inl ⟨hroot, hfault⟩

theorem reached?_of_evaluate_error {root : Tree} {s : Segment} {ss : List Segment}
    {e : QueryError} (h : evaluate root ⟨s :: ss⟩ = .error e) :
    (s :: ss)[e.depth]? = some e.segment ∧ reached? root s ss e.depth = none ∧
      ∀ d < e.depth, (reached? root s ss d).isSome = true := by
  rcases exists_of_evaluate_error h with ⟨hroot, hfault⟩ | ⟨d, u, t, hroot, hu, ht, hnone, hfault⟩
  · rcases hfault.place with ⟨hdepth, hsegment⟩
    rw [hdepth, hsegment]
    exact ⟨rfl, if_neg hroot, by simp⟩
  · rcases hfault.place with ⟨hdepth, hsegment⟩
    rw [hdepth, hsegment]
    refine ⟨hu, ?_, ?_⟩
    · rw [reached?_of_namesRoot hroot] at ht ⊢
      rw [List.take_add_one, hu, List.foldlM_append, ht]
      simpa using hnone
    · intro d' hd'
      exact isSome_reached?_of_le ht (Nat.le_of_lt_succ hd')

theorem evaluate_eq_ok_iff {root : Tree} {s : Segment} {ss : List Segment} {m : Tree} :
    evaluate root ⟨s :: ss⟩ = .ok m ↔
      NamesRoot root s ∧ ss.foldlM Tree.pick? root = some m := by
  by_cases hroot : NamesRoot root s
  · rw [evaluate_of_namesRoot hroot, descend_eq_ok_iff hroot.isSome_rule?]
    simp [hroot]
  · rcases exists_rootFault hroot ss with ⟨e, he, _⟩
    simp [he, hroot]

/-- The same for every path with a first segment, and thus for every path that is read. -/
theorem evaluate_agrees (root : Tree) (p : Path) :
    (∀ text, Path.parse text = .ok p → p.segments ≠ []) ∧
      ∀ s ss, p = ⟨s :: ss⟩ → AgreesWithChildren root s ss := by
  refine ⟨fun text => segments_ne_nil_of_parse, ?_⟩
  intro s ss _
  constructor
  case found =>
    intro m
    rw [evaluate_eq_ok_iff, NamesRoot, and_assoc]
    rfl
  case node =>
    intro m h
    rcases evaluate_eq_ok_iff.mp h with ⟨hroot, hm⟩
    have hnode := isSome_rule?_of_foldlM hroot.isSome_rule? hm
    cases m with
    | leaf text => cases hnode
    | node r ts => exact ⟨r, ts, rfl⟩
  case first =>
    intro e h
    exact reached?_of_evaluate_error h
  case atRoot =>
    intro e h hdepth
    rcases exists_of_evaluate_error h with ⟨_, hfault⟩ | ⟨d, u, t, _, _, _, _, hfault⟩
    · exact hfault
    · rw [hfault.place.1] at hdepth
      cases hdepth
  case below =>
    intro e d h hdepth
    rcases exists_of_evaluate_error h with ⟨_, hfault⟩ | ⟨d', u, t, _, _, ht, _, hfault⟩
    · rw [hfault.place.1] at hdepth
      cases hdepth
    · rcases hfault.place with ⟨hdepth', hsegment⟩
      rw [hdepth', Nat.add_right_cancel_iff] at hdepth
      subst hdepth
      rw [hsegment]
      exact ⟨t, ht, hfault⟩

/-- The path to a third name among two. -/
def thirdTwin : Path :=
  ⟨[⟨.identList, none⟩, ⟨.ident, some 2⟩]⟩

theorem evaluate_agrees_twins :
    Path.parse "/identList/ident[2]" = .ok thirdTwin ∧
      evaluate Tree.twins thirdTwin = .error (.indexOutOfRange ⟨.ident, some 2⟩ 1 2 2) ∧
      AgreesWithChildren Tree.twins ⟨.identList, none⟩ [⟨.ident, some 2⟩] ∧
      evaluate Tree.twins ⟨[⟨.identList, some 0⟩, ⟨.ident, some 1⟩]⟩ =
        .ok (.node .ident [.leaf "a"]) := by
  have hrender : thirdTwin.render = "/identList/ident[2]" := by decide +kernel
  have hparse : Path.parse "/identList/ident[2]" = .ok thirdTwin := by
    rw [← hrender]
    exact parse_render (by decide) (by decide)
  have hagrees := (evaluate_agrees Tree.twins thirdTwin).2 _ _ rfl
  have hsecond := (evaluate_agrees Tree.twins ⟨[⟨.identList, some 0⟩, ⟨.ident, some 1⟩]⟩).2 _ _ rfl
  exact ⟨hparse, rfl, hagrees, (hsecond.found _).mpr ⟨rfl, rfl, rfl⟩⟩

end Path
end PascalUnit
