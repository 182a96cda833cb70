import PascalUnit.Grammar.Soundness
import PascalUnit.Proofs.Grammar.Lookahead

/-!
# One derivation for each row

A predictive piece derives a row of tokens in one way only.  The alternatives of
a parameter are the exception: a single name with a default value is derived as
a bare name, and also as a list of one name.  Trees that keep to the bare name
are plain, and plain derivations are unique.

## Readings are plain

Readings try the bare name before the list and so never give the other form.
-/

namespace PascalUnit

open scoped Computability
open Continuation

namespace Tree

/-- A parameter that gives a default value to a list of one name. -/
def ListsLoneDefault (t : Tree) : Prop :=
  ∃ parts name value, t = .node .parameter parts ∧ .node .identList [name] ∈ parts ∧
    .node .constExpr value ∈ parts

/-- No parameter in the tree gives a default value to a list of one name. -/
def Plain (t : Tree) : Prop :=
  ∀ depth u, (depth, u) ∈ t.walk → ¬ u.ListsLoneDefault

/-!
## Plain trees
-/

mutual
theorem mem_walkFrom_shift {u : Tree} (m n : Nat) :
    ∀ {t : Tree}, (∃ depth, (depth, u) ∈ walkFrom m t) → ∃ depth, (depth, u) ∈ walkFrom n t
  | .leaf text, ⟨depth, h⟩ => by
      rw [walkFrom, List.mem_singleton, Prod.mk.injEq] at h
      rw [h.2]
      exact ⟨n, List.mem_singleton.mpr rfl⟩
  | .node r ts, ⟨depth, h⟩ => by
      rw [walkFrom, List.mem_cons, Prod.mk.injEq] at h
      rcases h with ⟨_, rfl⟩ | h
      · exact ⟨n, by rw [walkFrom]; exact List.mem_cons_self⟩
      · rcases mem_walkAllFrom_shift (m + 1) (n + 1) ⟨depth, h⟩ with ⟨depth', h'⟩
        exact ⟨depth', by rw [walkFrom]; exact List.mem_cons_of_mem _ h'⟩

theorem mem_walkAllFrom_shift {u : Tree} (m n : Nat) :
    ∀ {ts : List Tree}, (∃ depth, (depth, u) ∈ walkAllFrom m ts) →
      ∃ depth, (depth, u) ∈ walkAllFrom n ts
  | [], ⟨depth, h⟩ => by
      rw [walkAllFrom] at h
      cases h
  | t :: ts, ⟨depth, h⟩ => by
      rw [walkAllFrom, List.mem_append] at h
      rcases h with h | h
      · rcases mem_walkFrom_shift m n ⟨depth, h⟩ with ⟨depth', h'⟩
        exact ⟨depth', by rw [walkAllFrom, List.mem_append]; exact Or.inl h'⟩
      · rcases mem_walkAllFrom_shift m n ⟨depth, h⟩ with ⟨depth', h'⟩
        exact ⟨depth', by rw [walkAllFrom, List.mem_append]; exact Or.inr h'⟩
end

theorem mem_walkAllFrom {n : Nat} {ts : List Tree} {x : Nat × Tree} :
    x ∈ walkAllFrom n ts ↔ ∃ t ∈ ts, x ∈ walkFrom n t := by
  induction ts with
  | nil => simp [walkAllFrom]
  | cons t ts ih => simp [walkAllFrom, ih]

theorem plain_leaf (text : String) : Plain (.leaf text) := by
  intro depth u hu
  rw [walk, walkFrom, List.mem_singleton, Prod.mk.injEq] at hu
  rw [hu.2]
  intro h
  rcases h with ⟨parts, name, value, heq, _⟩
  cases heq

theorem plain_node {r : Rule} {ts : List Tree} :
    Plain (.node r ts) ↔ ¬ (node r ts).ListsLoneDefault ∧ ∀ t ∈ ts, t.Plain := by
  constructor
  · intro h
    constructor
    · exact h 0 _ (by rw [walk, walkFrom]; exact List.mem_cons_self)
    · intro t ht depth u hu
      rcases mem_walkFrom_shift 0 1 ⟨depth, hu⟩ with ⟨depth', hu'⟩
      refine h depth' u ?_
      rw [walk, walkFrom]
      exact List.mem_cons_of_mem _ (mem_walkAllFrom.mpr ⟨t, ht, hu'⟩)
  · intro h depth u hu
    rcases h with ⟨hroot, hparts⟩
    rw [walk, walkFrom, List.mem_cons, Prod.mk.injEq] at hu
    rcases hu with ⟨_, rfl⟩ | hu
    · exact hroot
    · rcases mem_walkAllFrom.mp hu with ⟨t, ht, hut⟩
      rcases mem_walkFrom_shift 1 0 ⟨depth, hut⟩ with ⟨depth', hu'⟩
      exact hparts t ht depth' u hu'

theorem plain_node_of_ne {r : Rule} (hr : r ≠ .parameter) {ts : List Tree} :
    Plain (.node r ts) ↔ ∀ t ∈ ts, t.Plain := by
  rw [plain_node]
  constructor
  · exact And.right
  · intro h
    refine ⟨?_, h⟩
    intro h
    rcases h with ⟨parts, name, value, heq, _⟩
    cases heq
    exact hr rfl

theorem forall_plain_append {ts us : List Tree} :
    (∀ t ∈ ts ++ us, t.Plain) ↔ (∀ t ∈ ts, t.Plain) ∧ ∀ u ∈ us, u.Plain :=
  List.forall_mem_append

end Tree

/-!
## Predictive pieces
-/

namespace Piece

def topRules : Piece → List Rule
  | nothing => []
  | token _ => []
  | both p q => topRules p ++ topRules q
  | either p q => topRules p ++ topRules q
  | many p => topRules p
  | named r _ => [r]

theorem Derives.mem_topRules {leafText : PlacedToken → String} {p : Piece}
    {xs : List PlacedToken} {ts : List Tree} (h : Derives leafText p xs ts) {r : Rule}
    {us : List Tree} (hmem : .node r us ∈ ts) : r ∈ topRules p := by
  induction h with
  | nothing => cases hmem
  | token x => simp at hmem
  | both _ _ ihp ihq =>
      rw [topRules, List.mem_append]
      rcases List.mem_append.mp hmem with hmem | hmem
      · exact Or.inl (ihp hmem)
      · exact Or.inr (ihq hmem)
  | first _ ih => exact List.mem_append.mpr (Or.inl (ih hmem))
  | second _ ih => exact List.mem_append.mpr (Or.inr (ih hmem))
  | stop => cases hmem
  | more _ _ ihp ihmany =>
      rcases List.mem_append.mp hmem with hmem | hmem
      · exact ihp hmem
      · exact ihmany hmem
  | named _ _ =>
      rw [List.mem_singleton, Tree.node.injEq] at hmem
      exact List.mem_singleton.mpr hmem.1

/-- Of the derivations of a row at most one is plain. -/
def Sole (p : Piece) : Prop :=
  ∀ ⦃leafText : PlacedToken → String⦄ ⦃xs : List PlacedToken⦄ ⦃ts us : List Tree⦄,
    Derives leafText p xs ts → Derives leafText p xs us → (∀ t ∈ ts, t.Plain) →
      (∀ u ∈ us, u.Plain) → ts = us

theorem split_tokens {L M : Language Token} (hsep : Separated L M)
    {xs xs' ys ys' : List PlacedToken} (hxs : kinds xs ∈ L) (hxs' : kinds xs' ∈ L)
    (hys : kinds ys ∈ M) (hys' : kinds ys' ∈ M) (heq : xs ++ ys = xs' ++ ys') :
    xs = xs' ∧ ys = ys' := by
  have hkinds : kinds xs ++ kinds ys = kinds xs' ++ kinds ys' := by
    rw [← kinds_append, heq, kinds_append]
  rcases hsep.split_unique hxs hxs' (viable_of_mem hys) (viable_of_mem hys') hkinds with ⟨hfirst, _⟩
  have hlength : xs.length = xs'.length := by
    rw [← length_kinds, hfirst, length_kinds]
  exact List.append_inj heq hlength

theorem Sole.both {p q : Piece} (hp : Sole p) (hq : Sole q)
    (hsep : Separated p.language q.language) : Sole (both p q) := by
  intro leafText xs ts us hts hus hplain hplain'
  rcases derives_both.mp hts with ⟨ys, zs, ts₁, ts₂, rfl, rfl, hp₁, hq₁⟩
  rcases derives_both.mp hus with ⟨ys', zs', us₁, us₂, heq, rfl, hp₂, hq₂⟩
  rcases split_tokens hsep hp₁.kinds_mem_language hp₂.kinds_mem_language
    hq₁.kinds_mem_language hq₂.kinds_mem_language heq with ⟨rfl, rfl⟩
  rcases Tree.forall_plain_append.mp hplain with ⟨hplain₁, hplain₂⟩
  rcases Tree.forall_plain_append.mp hplain' with ⟨hplain₁', hplain₂'⟩
  rw [hp hp₁ hp₂ hplain₁ hplain₁', hq hq₁ hq₂ hplain₂ hplain₂']

theorem Sole.either {p q : Piece} (hp : Sole p) (hq : Sole q)
    (hdisjoint : ∀ w ∈ p.language, w ∉ q.language) : Sole (either p q) := by
  intro leafText xs ts us hts hus hplain hplain'
  rcases derives_either.mp hts with hp₁ | hq₁
  · rcases derives_either.mp hus with hp₂ | hq₂
    · exact hp hp₁ hp₂ hplain hplain'
    · exact absurd hq₂.kinds_mem_language (hdisjoint _ hp₁.kinds_mem_language)
  · rcases derives_either.mp hus with hp₂ | hq₂
    · exact absurd hq₁.kinds_mem_language (hdisjoint _ hp₂.kinds_mem_language)
    · exact hq hq₁ hq₂ hplain hplain'

theorem Sole.many {p : Piece} (hp : Sole p) (hnil : [] ∉ p.language)
    (hsep : Separated p.language p.language) : Sole (many p) := by
  intro leafText xs ts us hts hus hplain hplain'
  -- each round takes a token, so the rows get shorter
  induction hn : xs.length using Nat.strong_induction_on generalizing xs ts us with
  | _ n ih =>
      rcases derives_many.mp hts with ⟨rfl, rfl⟩ | ⟨ys, zs, ts₁, ts₂, rfl, rfl, hp₁, hmany₁⟩
      · rcases derives_many.mp hus with ⟨_, rfl⟩ | ⟨ys', zs', us₁, us₂, heq, rfl, hp₂, _⟩
        · rfl
        · rcases List.append_eq_nil_iff.mp heq.symm with ⟨rfl, rfl⟩
          exact absurd hp₂.kinds_mem_language hnil
      · have hne : ys ≠ [] := by
          intro heq
          subst heq
          exact hnil hp₁.kinds_mem_language
        rcases derives_many.mp hus with ⟨heq, _⟩ | ⟨ys', zs', us₁, us₂, heq, rfl, hp₂, hmany₂⟩
        · exact absurd (List.append_eq_nil_iff.mp heq).1 hne
        · rcases split_tokens (hsep.kstar hnil) hp₁.kinds_mem_language
            hp₂.kinds_mem_language hmany₁.kinds_mem_language hmany₂.kinds_mem_language heq with
            ⟨rfl, rfl⟩
          rcases Tree.forall_plain_append.mp hplain with ⟨hplain₁, hplain₂⟩
          rcases Tree.forall_plain_append.mp hplain' with ⟨hplain₁', hplain₂'⟩
          have hshorter : zs.length < n := by
            have hpos := List.length_pos_iff.mpr hne
            rw [List.length_append] at hn
            omega
          rw [hp hp₁ hp₂ hplain₁ hplain₁',
            ih _ hshorter hmany₁ hmany₂ hplain₂ hplain₂' rfl]

theorem disjoint_of_starts {L M : Language Token} (hnil : [] ∉ L)
    (hstarts : ∀ k, Starts L k → ¬ Starts M k) (w : List Token) (hw : w ∈ L) : w ∉ M := by
  intro hM
  cases w with
  | nil => exact hnil hw
  | cons first w => exact hstarts first (viable_of_mem hw).starts (viable_of_mem hM).starts

theorem sole_of_predictive {apart : Rule → Option Piece}
    (hforeseen : ∀ r q, apart r = some q → Foreseen q)
    (hsole : ∀ r q, apart r = some q → Sole q) {p : Piece}
    (h : predictive apart p = true) : Sole p := by
  induction p with
  | nothing =>
      intro leafText xs ts us hts hus _ _
      cases hts
      cases hus
      rfl
  | token t =>
      intro leafText xs ts us hts hus _ _
      rcases derives_token.mp hts with ⟨x, _, rfl, rfl⟩
      rcases derives_token.mp hus with ⟨y, _, heq, rfl⟩
      cases heq
      rfl
  | both p q ihp ihq =>
      rw [predictive, Bool.and_eq_true, Bool.and_eq_true] at h
      rcases h with ⟨⟨hp, hq⟩, hlists⟩
      exact (ihp hp).both (ihq hq) ((foreseen_of_predictive hforeseen hp).separated hlists)
  | either p q ihp ihq =>
      rw [predictive, Bool.and_eq_true, Bool.and_eq_true, Bool.and_eq_true] at h
      rcases h with ⟨⟨⟨hp, hq⟩, hnullable⟩, hlists⟩
      exact (ihp hp).either (ihq hq)
        (disjoint_of_starts ((not_nullable_iff p).mp hnullable) (starts_apart hlists))
  | many p ih =>
      rw [predictive, Bool.and_eq_true, Bool.and_eq_true] at h
      rcases h with ⟨⟨hp, hnullable⟩, hlists⟩
      exact (ih hp).many ((not_nullable_iff p).mp hnullable)
        ((foreseen_of_predictive hforeseen hp).separated hlists)
  | named r p ih =>
      rw [predictive] at h
      cases hr : apart r with
      | some q =>
          rw [hr] at h
          have heq : named r p = q := of_decide_eq_true h
          rw [heq]
          exact hsole r q hr
      | none =>
          rw [hr] at h
          intro leafText xs ts us hts hus hplain hplain'
          rcases derives_named.mp hts with ⟨ts', rfl, hp⟩
          rcases derives_named.mp hus with ⟨us', rfl, hp'⟩
          have hparts := (Tree.plain_node.mp (hplain _ List.mem_cons_self)).2
          have hparts' := (Tree.plain_node.mp (hplain' _ List.mem_cons_self)).2
          rw [ih h hp hp' hparts hparts']

end Piece

/-!
## Parameters
-/

namespace Grammar

open Piece

variable {leafText : PlacedToken → String}

theorem derives_identList {xs : List PlacedToken} {ts : List Tree}
    (h : Derives leafText identList xs ts) :
    ∃ first rest name names, xs = first :: rest ∧ ts = [.node .identList (name :: names)] ∧
      first.token = .ident ∧ (names = [] ↔ rest = []) ∧
        ∀ x ∈ rest.head?, x.token = .mark .comma := by
  rcases derives_named.mp h with ⟨parts, rfl, hparts⟩
  rcases derives_both.mp hparts with ⟨ys, zs, us, vs, rfl, rfl, hident, hmany⟩
  rcases derives_named.mp hident with ⟨_, rfl, htoken⟩
  rcases derives_token.mp htoken with ⟨x, hx, rfl, rfl⟩
  refine ⟨x, zs, _, vs, rfl, rfl, hx, ?_⟩
  rcases derives_many.mp hmany with ⟨rfl, rfl⟩ | ⟨as, bs, cs, ds, rfl, rfl, hmore, _⟩
  · simp
  · rcases derives_both.mp hmore with ⟨es, fs, gs, is, rfl, rfl, hcomma, _⟩
    rcases derives_token.mp hcomma with ⟨y, hy, rfl, rfl⟩
    simp [hy]

/--
A parameter with a list of names is the form to avoid exactly when its tokens
could be read as a bare name with a default value.
-/
theorem listsLoneDefault_iff {xs : List PlacedToken} {ts : List Tree}
    (h : Derives leafText listedParameter xs ts) :
    (Tree.node .parameter ts).ListsLoneDefault ↔ kinds xs ∈ defaultedParameter.language := by
  rcases derives_both.mp h with ⟨ys, zs, us, vs, rfl, rfl, hnames, hrest⟩
  rcases derives_identList hnames with ⟨first, rest, name, names, rfl, rfl, hfirst, hnone, hcomma⟩
  rcases derives_both.mp hrest with ⟨as, bs, cs, ds, rfl, rfl, hcolon, htyped⟩
  rcases derives_token.mp hcolon with ⟨colon, hcolon', rfl, rfl⟩
  rcases derives_both.mp htyped with ⟨es, fs, gs, is, rfl, rfl, htype, hdefault⟩
  rcases derives_named.mp htype with ⟨parts, rfl, _⟩
  rcases derives_either.mp hdefault with hvalue | hplain
  · rcases derives_both.mp hvalue with ⟨js, ks, ls, ms, rfl, rfl, hequals, hexpr⟩
    rcases derives_token.mp hequals with ⟨equals, _, rfl, rfl⟩
    rcases derives_named.mp hexpr with ⟨value, rfl, _⟩
    have hform : (Tree.node .parameter
        ([.node .identList (name :: names)] ++ ([.leaf (leafText colon)] ++
          ([.node .parameterType parts] ++ ([.leaf (leafText equals)] ++
            [.node .constExpr value]))))).ListsLoneDefault ↔ rest = [] := by
      rw [← hnone]
      simp [Tree.ListsLoneDefault]
    rw [hform]
    constructor
    · intro heq
      subst heq
      have hident : kinds [first] ∈ ident.language := by
        rw [kinds_cons, hfirst]
        rfl
      rw [kinds_append, kinds_append, kinds_append, kinds_append]
      exact Language.append_mem_mul hident (Language.append_mem_mul hcolon.kinds_mem_language
        (Language.append_mem_mul htype.kinds_mem_language
          (Language.append_mem_mul hequals.kinds_mem_language hexpr.kinds_mem_language)))
    · intro hmem
      cases rest with
      | nil => rfl
      | cons x rest =>
          -- the second token would have to be a comma and a colon
          rcases Language.mem_mul.mp hmem with ⟨a, ha, b, hb, hab⟩
          rcases Language.mem_mul.mp hb with ⟨c, hc, d, _, rfl⟩
          obtain rfl : a = [.ident] := ha
          obtain rfl : c = [.mark .colon] := hc
          have hx : x.token = .mark .comma := hcomma x rfl
          simp [hx] at hab
  · cases hplain
    constructor
    · intro h
      rcases h with ⟨parts', name', value, heq, _, hvalue⟩
      cases heq
      simp at hvalue
    · intro hmem
      exfalso
      have hequals :=
        equals_mem_of_listedDefault (mem_listedDefault_of_mem_defaultedParameter hmem)
      have hlisted : Derives leafText listedPlain (first :: rest ++ ([colon] ++ es)) _ :=
        .both hnames (.both hcolon htype)
      rw [List.append_nil] at hequals
      have halphabet := mem_alphabet (viable_of_mem hlisted.kinds_mem_language) hequals
      exact absurd halphabet (by decide)

theorem not_listsLoneDefault_of_openArray {xs : List PlacedToken} {ts : List Tree}
    (h : Derives leafText openArrayParameter xs ts) :
    ¬ (Tree.node .parameter ts).ListsLoneDefault := by
  intro hlone
  rcases hlone with ⟨parts, name, value, heq, _, hvalue⟩
  cases heq
  exact absurd (h.mem_topRules hvalue) (by decide)

theorem not_listsLoneDefault_of_defaulted {xs : List PlacedToken} {ts : List Tree}
    (h : Derives leafText defaultedParameter xs ts) :
    ¬ (Tree.node .parameter ts).ListsLoneDefault := by
  intro hlone
  rcases hlone with ⟨parts, name, value, heq, hnames, _⟩
  cases heq
  exact absurd (h.mem_topRules hnames) (by decide)

theorem sole_of_whole {p : Piece} (h : predictive whole p = true) : Sole p := by
  refine sole_of_predictive ?_ ?_ h
  · intro r q hr
    cases hr
  · intro r q hr
    cases hr

/-- Among the forms with a type, the bare name excludes the list. -/
theorem typedParameter_sole {xs : List PlacedToken} {ts us : List Tree}
    (hts : Derives leafText (either defaultedParameter listedParameter) xs ts)
    (hus : Derives leafText (either defaultedParameter listedParameter) xs us)
    (hplain : (Tree.node .parameter ts).Plain) (hplain' : (Tree.node .parameter us).Plain) :
    ts = us := by
  have hdefaulted : Sole defaultedParameter := sole_of_whole (by decide)
  have hlisted : Sole listedParameter := sole_of_whole (by decide)
  rcases Tree.plain_node.mp hplain with ⟨hform, hparts⟩
  rcases Tree.plain_node.mp hplain' with ⟨hform', hparts'⟩
  rcases derives_either.mp hts with hd | hl
  · rcases derives_either.mp hus with hd' | hl'
    · exact hdefaulted hd hd' hparts hparts'
    · exact absurd ((listsLoneDefault_iff hl').mpr hd.kinds_mem_language) hform'
  · rcases derives_either.mp hus with hd' | hl'
    · exact absurd ((listsLoneDefault_iff hl).mpr hd'.kinds_mem_language) hform
    · exact hlisted hl hl' hparts hparts'

theorem parameter_sole : Sole parameter := by
  have hopen : Sole openArrayParameter := sole_of_whole (by decide)
  have hdisjoint : ∀ w ∈ openArrayParameter.language,
      w ∉ (either defaultedParameter listedParameter).language := by
    intro w hw hw'
    have harray := mem_alphabet (viable_of_mem hw') (array_mem_of_openArrayParameter hw)
    exact absurd harray (by decide)
  intro leafText xs ts us hts hus hplain hplain'
  rcases derives_named.mp hts with ⟨parts, rfl, hparts⟩
  rcases derives_named.mp hus with ⟨parts', rfl, hparts'⟩
  have hnode := hplain _ List.mem_cons_self
  have hnode' := hplain' _ List.mem_cons_self
  rcases derives_either.mp hparts with ho | ht
  · rcases derives_either.mp hparts' with ho' | ht'
    · rw [hopen ho ho' (Tree.plain_node.mp hnode).2 (Tree.plain_node.mp hnode').2]
    · exact absurd ht'.kinds_mem_language (hdisjoint _ ho.kinds_mem_language)
  · rcases derives_either.mp hparts' with ho' | ht'
    · exact absurd ht.kinds_mem_language (hdisjoint _ ho'.kinds_mem_language)
    · rw [typedParameter_sole ht ht' hnode hnode']

theorem unit_sole : Sole unit := by
  refine sole_of_predictive ?_ ?_ unit_predictive
  · intro r q hr
    cases r <;> cases hr
    exact parameter_foreseen
  · intro r q hr
    cases r <;> cases hr
    exact parameter_sole

end Grammar

/-!
## Readings are plain
-/

namespace Piece

def rules : Piece → List Rule
  | nothing => []
  | token _ => []
  | both p q => rules p ++ rules q
  | either p q => rules p ++ rules q
  | many p => rules p
  | named r p => r :: rules p

theorem Derives.plain {leafText : PlacedToken → String} {p : Piece} {xs : List PlacedToken}
    {ts : List Tree} (h : Derives leafText p xs ts) (hp : .parameter ∉ rules p) :
    ∀ t ∈ ts, t.Plain := by
  induction h with
  | nothing => simp
  | token x => simp [Tree.plain_leaf]
  | both _ _ ihp ihq =>
      rw [rules, List.mem_append, not_or] at hp
      exact Tree.forall_plain_append.mpr ⟨ihp hp.1, ihq hp.2⟩
  | first _ ih =>
      rw [rules, List.mem_append, not_or] at hp
      exact ih hp.1
  | second _ ih =>
      rw [rules, List.mem_append, not_or] at hp
      exact ih hp.2
  | stop => simp
  | more _ _ ihp ihmany => exact Tree.forall_plain_append.mpr ⟨ihp hp, ihmany hp⟩
  | named _ ih =>
      rw [rules, List.mem_cons, not_or] at hp
      intro t ht
      rw [List.mem_singleton.mp ht, Tree.plain_node_of_ne (Ne.symm hp.1)]
      exact ih hp.2

def ReadsPlain (leafText : PlacedToken → String) (p : Piece) : Prop :=
  ∀ ⦃c d : Cursor⦄ ⦃ts : List Tree⦄ ⦃s : Stall⦄,
    read leafText p c = .matched ts d s → ∀ t ∈ ts, t.Plain

theorem ReadsPlain.repeatedly {leafText : PlacedToken → String} {p : Piece}
    (hp : ReadsPlain leafText p) {c d : Cursor} {ts : List Tree} {s : Stall}
    (h : Piece.repeatedly (read leafText p) c = .matched ts d s) : ∀ t ∈ ts, t.Plain := by
  fun_induction Piece.repeatedly (read leafText p) c generalizing ts d s with
  | case1 c t hread =>
      cases h
      simp
  | case2 c us e t hread _ ih =>
      rcases Reading.matched_of_prepend_after h with ⟨vs, u, hrest, rfl⟩
      exact Tree.forall_plain_append.mpr ⟨hp hread, ih hrest⟩
  | case3 c us e t hread _ =>
      cases h
      simp

/-- Rules that are not examined apart are no parameters, and nothing else needs a look. -/
theorem readsPlain_of_predictive {leafText : PlacedToken → String}
    {apart : Rule → Option Piece} (hparameter : apart .parameter ≠ none)
    (hapart : ∀ r q, apart r = some q → ReadsPlain leafText q) {p : Piece}
    (h : predictive apart p = true) : ReadsPlain leafText p := by
  induction p with
  | nothing =>
      intro c d ts s hread
      cases hread
      simp
  | token t =>
      intro c d ts s hread
      rcases advances_of_read hread with ⟨xs, _, hderives, _⟩
      exact hderives.plain (by simp [rules])
  | both p q ihp ihq =>
      rw [predictive, Bool.and_eq_true, Bool.and_eq_true] at h
      intro c d ts s hread
      rcases read_both_eq_matched hread with ⟨us, vs, e, t, u, hp, hq, rfl⟩
      exact Tree.forall_plain_append.mpr ⟨ihp h.1.1 hp, ihq h.1.2 hq⟩
  | either p q ihp ihq =>
      rw [predictive, Bool.and_eq_true, Bool.and_eq_true, Bool.and_eq_true] at h
      intro c d ts s hread
      rcases read_either_eq_matched hread with hp | ⟨t, u, _, hq⟩
      · exact ihp h.1.1.1 hp
      · exact ihq h.1.1.2 hq
  | many p ih =>
      rw [predictive, Bool.and_eq_true, Bool.and_eq_true] at h
      intro c d ts s hread
      rw [read] at hread
      exact (ih h.1.1).repeatedly hread
  | named r p ih =>
      rw [predictive] at h
      cases hr : apart r with
      | some q =>
          rw [hr] at h
          have heq : named r p = q := of_decide_eq_true h
          rw [heq]
          exact hapart r q hr
      | none =>
          rw [hr] at h
          have hne : r ≠ .parameter := by
            intro heq
            subst heq
            exact hparameter hr
          intro c d ts s hread
          rcases read_named_eq_matched hread with ⟨us, hp, rfl⟩
          intro u hu
          rw [List.mem_singleton.mp hu, Tree.plain_node_of_ne hne]
          exact ih h hp

end Piece

namespace Grammar

open Piece

/-- The list of names is read only where the bare name has been refused. -/
theorem parameter_readsPlain (leafText : PlacedToken → String) :
    ReadsPlain leafText parameter := by
  have hdefaulted : Orderly defaultedParameter := (foreseen_of_whole (by decide)).orderly
  intro c d ts s hread u hu
  rw [parameter_eq] at hread
  rcases read_named_eq_matched hread with ⟨us, hbody, rfl⟩
  rcases advances_of_read hbody with ⟨_, _, hderives, _⟩
  rw [List.mem_singleton.mp hu, Tree.plain_node]
  refine ⟨?_, hderives.plain (by decide)⟩
  rcases read_either_eq_matched hbody with ho | ⟨_, _, _, htyped⟩
  · rcases advances_of_read ho with ⟨_, _, hopen, _⟩
    exact not_listsLoneDefault_of_openArray hopen
  · rcases read_either_eq_matched htyped with hd | ⟨_, _, hrefused, hl⟩
    · rcases advances_of_read hd with ⟨_, _, hbare, _⟩
      exact not_listsLoneDefault_of_defaulted hbare
    · rcases advances_of_read hl with ⟨ys, hys, hlist, _⟩
      intro hform
      have hexact := hdefaulted.read_exact leafText c
      rw [hrefused] at hexact
      cases hexact with
      | refused hnone _ =>
          refine hnone (kinds ys) ((listsLoneDefault_iff hlist).mp hform) ?_
          rw [hys, kinds_append]
          exact List.prefix_append _ _

theorem unit_readsPlain (leafText : PlacedToken → String) : ReadsPlain leafText unit := by
  refine readsPlain_of_predictive ?_ ?_ unit_predictive
  · simp [settled]
  · intro r q hr
    cases r <;> cases hr
    exact parameter_readsPlain leafText

end Grammar
end PascalUnit
