import PascalUnit.Proofs.Grammar.Exactness

/-!
# One token of lookahead

Which tokens can begin a piece, and which can come after a complete word of it,
is computed from its parts.  `predictive` checks with these lists that every
choice in a piece is settled by its next token; a piece that passes is orderly.

## The one exception

All of the grammar passes but the alternatives of a parameter, which begin alike.
They are ordered by hand: a parameter with `ARRAY` is taken by the first one
alone, and what the second one reads the third one cannot continue.
-/

namespace PascalUnit

open scoped Computability
open Continuation

namespace Piece

/-!
## Computed lists
-/

def nullable : Piece → Bool
  | nothing => true
  | token _ => false
  | both p q => nullable p && nullable q
  | either p q => nullable p || nullable q
  | many _ => true
  | named _ p => nullable p

def starters : Piece → List Token
  | nothing => []
  | token t => [t]
  | both p q => if nullable p then starters p ++ starters q else starters p
  | either p q => starters p ++ starters q
  | many p => starters p
  | named _ p => starters p

/-- The tokens with which a complete word of a piece can go on. -/
def extenders : Piece → List Token
  | nothing => []
  | token _ => []
  | both p q => if nullable q then extenders p ++ extenders q else extenders q
  | either p q =>
      if nullable q then extenders p ++ extenders q ++ starters p
      else extenders p ++ extenders q
  | many p => extenders p ++ starters p
  | named _ p => extenders p

def alphabet : Piece → List Token
  | nothing => []
  | token t => [t]
  | both p q => alphabet p ++ alphabet q
  | either p q => alphabet p ++ alphabet q
  | many p => alphabet p
  | named _ p => alphabet p

def apartFrom (as bs : List Token) : Bool :=
  as.all fun a => decide (a ∉ bs)

/--
Every choice in a piece is settled by the next token.  The productions that
`apart` gives are not looked into.
-/
def predictive (apart : Rule → Option Piece) : Piece → Bool
  | nothing => true
  | token _ => true
  | both p q => predictive apart p && predictive apart q && apartFrom (extenders p) (starters q)
  | either p q =>
      predictive apart p && predictive apart q && !nullable p &&
        apartFrom (starters p) (starters q)
  | many p => predictive apart p && !nullable p && apartFrom (extenders p) (starters p)
  | named r p =>
      match apart r with
      | some q => decide (named r p = q)
      | none => predictive apart p

/-!
## The lists are complete
-/

theorem nullable_iff (p : Piece) : nullable p = true ↔ [] ∈ p.language := by
  induction p with
  | nothing => simp [nullable, language, Language.mem_one]
  | token t => simp [nullable, mem_language_token]
  | both p q ihp ihq =>
      rw [nullable, Bool.and_eq_true, ihp, ihq, language, Language.mem_mul]
      constructor
      · intro h
        rcases h with ⟨hp, hq⟩
        exact ⟨[], hp, [], hq, rfl⟩
      · intro h
        rcases h with ⟨a, ha, b, hb, hab⟩
        rcases List.append_eq_nil_iff.mp hab with ⟨rfl, rfl⟩
        exact ⟨ha, hb⟩
  | either p q ihp ihq =>
      rw [nullable, Bool.or_eq_true, ihp, ihq, language, Language.mem_add]
  | many p _ => simp [nullable, language, Language.nil_mem_kstar]
  | named r p ih => rw [nullable, ih, language]

theorem not_nullable_iff (p : Piece) : (!nullable p) = true ↔ [] ∉ p.language := by
  rw [← nullable_iff, Bool.not_eq_true']
  simp

theorem starts_mem_starters {p : Piece} {k : Token} (h : Starts p.language k) :
    k ∈ starters p := by
  induction p with
  | nothing =>
      rcases h with ⟨v, hv⟩
      exact absurd ((Language.mem_one _).mp hv) (by simp)
  | token t =>
      rcases h with ⟨v, hv⟩
      rw [mem_language_token, List.cons_append, List.cons.injEq] at hv
      rw [starters, List.mem_singleton]
      exact hv.1
  | both p q ihp ihq =>
      rw [starters]
      rcases (viable_mul (exists_mem_language q)).mp h with hp | ⟨u, hu, v, hv, huv⟩
      · split
        · exact List.mem_append.mpr (Or.inl (ihp hp))
        · exact ihp hp
      · cases u with
        | nil =>
            rw [if_pos ((nullable_iff p).mpr hu)]
            rw [List.nil_append] at huv
            subst huv
            exact List.mem_append.mpr (Or.inr (ihq hv))
        | cons first u =>
            rw [List.cons_append, List.cons.injEq] at huv
            rcases huv with ⟨rfl, _⟩
            have hp := ihp (viable_of_mem hu).starts
            split
            · exact List.mem_append.mpr (Or.inl hp)
            · exact hp
  | either p q ihp ihq =>
      rw [starters, List.mem_append]
      rcases viable_add.mp h with hp | hq
      · exact Or.inl (ihp hp)
      · exact Or.inr (ihq hq)
  | many p ih =>
      rw [starters]
      rcases h with ⟨v, hv⟩
      rcases Language.mem_kstar_iff_exists_nonempty.mp hv with ⟨words, hwords, hmem⟩
      cases words with
      | nil => cases hwords
      | cons w words =>
          rcases hmem w List.mem_cons_self with ⟨hw, hne⟩
          cases w with
          | nil => exact absurd rfl hne
          | cons first w =>
              rw [List.flatten_cons, List.cons_append, List.cons_append,
                List.cons.injEq] at hwords
              rcases hwords with ⟨rfl, _⟩
              exact ih (viable_of_mem hw).starts
  | named r p ih => exact ih h

theorem mem_alphabet {p : Piece} {w : List Token} (h : Viable p.language w) {k : Token}
    (hk : k ∈ w) : k ∈ alphabet p := by
  rcases h with ⟨v, hv⟩
  have hmem : ∀ w ∈ p.language, ∀ k ∈ w, k ∈ alphabet p := by
    clear hv hk
    induction p with
    | nothing =>
        intro w hw k hk
        rw [(Language.mem_one w).mp hw] at hk
        cases hk
    | token t =>
        intro w hw k hk
        rw [mem_language_token.mp hw] at hk
        exact hk
    | both p q ihp ihq =>
        intro w hw k hk
        rcases Language.mem_mul.mp hw with ⟨a, ha, b, hb, rfl⟩
        rw [alphabet, List.mem_append]
        rcases List.mem_append.mp hk with hk | hk
        · exact Or.inl (ihp a ha k hk)
        · exact Or.inr (ihq b hb k hk)
    | either p q ihp ihq =>
        intro w hw k hk
        rw [alphabet, List.mem_append]
        rcases (Language.mem_add _ _ _).mp hw with hw | hw
        · exact Or.inl (ihp w hw k hk)
        · exact Or.inr (ihq w hw k hk)
    | many p ih =>
        intro w hw k hk
        rcases Language.mem_kstar.mp hw with ⟨words, rfl, hwords⟩
        rcases List.mem_flatten.mp hk with ⟨y, hy, hky⟩
        exact ih y (hwords y hy) k hky
    | named r p ih => exact ih
  exact hmem _ hv k (List.mem_append.mpr (Or.inl hk))

/-!
## What can follow a complete word
-/

theorem viable_mul_of_mem {L M : Language Token} (hsep : Separated L M) {a b : List Token}
    (ha : a ∈ L) (hb : b ∈ M) {k : Token} (h : Viable (L * M) (a ++ b ++ [k])) :
    Viable M (b ++ [k]) ∨ b = [] ∧ Extends L k := by
  -- a word of `L` that reaches behind `a` leaves nothing for `b`
  have hinside : Viable L (a ++ b ++ [k]) → b = [] ∧ Extends L k := by
    intro hL
    cases b with
    | nil => exact ⟨rfl, a, ha, by simpa using hL⟩
    | cons first b =>
        have hextends : Extends L first :=
          extends_of_mem ha (by simpa using hL : Viable L (a ++ first :: (b ++ [k])))
        exact absurd (viable_of_mem hb).starts (hsep first hextends)
  rcases (viable_mul ⟨b, hb⟩).mp h with hL | ⟨u, hu, v, hv, huv⟩
  · exact Or.inr (hinside hL)
  · rcases List.eq_nil_or_concat' v with rfl | ⟨v, k', rfl⟩
    · rw [List.append_nil] at huv
      exact Or.inr (hinside (huv ▸ viable_of_mem hu))
    · rw [← List.append_assoc] at huv
      rcases List.append_inj' huv rfl with ⟨hword, hk⟩
      rcases hsep.split_unique hu ha hv.of_append (viable_of_mem hb) hword with ⟨_, rfl⟩
      rw [hk] at hv
      exact Or.inl hv

theorem extends_mul {L M : Language Token} (hsep : Separated L M) {k : Token}
    (h : Extends (L * M) k) : Extends M k ∨ [] ∈ M ∧ Extends L k := by
  rcases h with ⟨w, hw, hviable⟩
  rcases Language.mem_mul.mp hw with ⟨a, ha, b, hb, rfl⟩
  rcases viable_mul_of_mem hsep ha hb hviable with hM | ⟨rfl, hL⟩
  · exact Or.inl ⟨b, hb, hM⟩
  · exact Or.inr ⟨hb, hL⟩

theorem extends_add {L M : Language Token} (hnil : [] ∉ L)
    (hstarts : ∀ k, Starts L k → ¬ Starts M k) {k : Token} (h : Extends (L + M) k) :
    Extends L k ∨ Extends M k ∨ [] ∈ M ∧ Starts L k := by
  rcases h with ⟨w, hw, hviable⟩
  rcases (Language.mem_add L M w).mp hw with hL | hM
  · rcases viable_add.mp hviable with hL' | hM'
    · exact Or.inl ⟨w, hL, hL'⟩
    · cases w with
      | nil => exact absurd hL hnil
      | cons first w =>
          exact absurd hM'.starts (hstarts first (viable_of_mem hL).starts)
  · rcases viable_add.mp hviable with hL' | hM'
    · cases w with
      | nil => exact Or.inr (Or.inr ⟨hM, hL'⟩)
      | cons first w =>
          exact absurd (viable_of_mem hM).starts (hstarts first hL'.starts)
    · exact Or.inr (Or.inl ⟨w, hM, hM'⟩)

theorem extends_kstar {L : Language Token} (hnil : [] ∉ L) (hsep : Separated L L) {k : Token}
    (h : Extends (L∗) k) : Extends L k ∨ Starts L k := by
  rcases h with ⟨w, hw, hviable⟩
  rcases Language.mem_kstar.mp hw with ⟨words, rfl, hwords⟩
  induction words with
  | nil => exact Or.inr (starts_kstar hnil hviable)
  | cons a words ih =>
      have hrest : ∀ y ∈ words, y ∈ L := by
        intro y hy
        exact hwords y (List.mem_cons_of_mem a hy)
      have hb : words.flatten ∈ L∗ := Language.mem_kstar.mpr ⟨words, rfl, hrest⟩
      have hmul : Viable (L * L∗) (a ++ words.flatten ++ [k]) := by
        rw [List.flatten_cons, kstar_eq] at hviable
        rcases viable_add.mp hviable with hmul | ⟨v, hv⟩
        · exact hmul
        · exact absurd ((Language.mem_one _).mp hv) (by simp)
      rcases viable_mul_of_mem (hsep.kstar hnil) (hwords a List.mem_cons_self) hb hmul with
        hstar | ⟨_, hextends⟩
      · exact ih hrest hb hstar
      · exact Or.inl hextends

/-!
## Predictive pieces are orderly
-/

/-- A piece is read exactly, and it is known which tokens its words can go on with. -/
structure Foreseen (p : Piece) : Prop where
  orderly : Orderly p
  mem_extenders : ∀ {k : Token}, Extends p.language k → k ∈ extenders p

theorem Foreseen.separated {p q : Piece} (h : Foreseen p)
    (hapart : apartFrom (extenders p) (starters q) = true) :
    Separated p.language q.language := by
  intro k hextends hstarts
  have hk := List.all_eq_true.mp hapart k (h.mem_extenders hextends)
  exact of_decide_eq_true hk (starts_mem_starters hstarts)

theorem starts_apart {p q : Piece} (hapart : apartFrom (starters p) (starters q) = true)
    (k : Token) (h : Starts p.language k) : ¬ Starts q.language k := by
  intro h'
  have hk := List.all_eq_true.mp hapart k (starts_mem_starters h)
  exact of_decide_eq_true hk (starts_mem_starters h')

theorem supersedes_of_starts {L M : Language Token} (hnil : [] ∉ L)
    (hstarts : ∀ k, Starts L k → ¬ Starts M k) : Supersedes L M := by
  intro u hu v huv
  cases u with
  | nil => exact absurd hu hnil
  | cons first u =>
      rcases huv with ⟨rest, rfl⟩
      have hnone : ¬ Viable M (first :: u ++ rest) := by
        intro hM
        exact hstarts first (viable_of_mem hu).starts hM.starts
      constructor
      · intro hM
        exact absurd (viable_of_mem hM) hnone
      · intro hM
        exact absurd hM hnone

theorem foreseen_of_predictive {apart : Rule → Option Piece}
    (hapart : ∀ r q, apart r = some q → Foreseen q) {p : Piece}
    (h : predictive apart p = true) : Foreseen p := by
  induction p with
  | nothing =>
      refine ⟨.nothing, ?_⟩
      intro k h
      rcases h with ⟨u, _, v, hv⟩
      exact absurd ((Language.mem_one _).mp hv) (by simp)
  | token t =>
      refine ⟨.token t, ?_⟩
      intro k h
      rcases h with ⟨u, hu, v, hv⟩
      rw [mem_language_token] at hu hv
      subst hu
      simp at hv
  | both p q ihp ihq =>
      rw [predictive, Bool.and_eq_true, Bool.and_eq_true] at h
      rcases h with ⟨⟨hp, hq⟩, hlists⟩
      have hsep := (ihp hp).separated hlists
      refine ⟨.both (ihp hp).orderly (ihq hq).orderly hsep, ?_⟩
      intro k hk
      rw [extenders]
      rcases extends_mul hsep hk with hq' | ⟨hnil, hp'⟩
      · have hmem := (ihq hq).mem_extenders hq'
        split
        · exact List.mem_append.mpr (Or.inr hmem)
        · exact hmem
      · rw [if_pos ((nullable_iff q).mpr hnil)]
        exact List.mem_append.mpr (Or.inl ((ihp hp).mem_extenders hp'))
  | either p q ihp ihq =>
      rw [predictive, Bool.and_eq_true, Bool.and_eq_true, Bool.and_eq_true] at h
      rcases h with ⟨⟨⟨hp, hq⟩, hnullable⟩, hlists⟩
      have hnil := (not_nullable_iff p).mp hnullable
      have hstarts := starts_apart hlists
      refine ⟨.either (ihp hp).orderly (ihq hq).orderly (supersedes_of_starts hnil hstarts), ?_⟩
      intro k hk
      rw [extenders]
      rcases extends_add hnil hstarts hk with hp' | hq' | ⟨hnil', hstart⟩
      · have hmem := (ihp hp).mem_extenders hp'
        split <;> simp [hmem]
      · have hmem := (ihq hq).mem_extenders hq'
        split <;> simp [hmem]
      · rw [if_pos ((nullable_iff q).mpr hnil')]
        exact List.mem_append.mpr (Or.inr (starts_mem_starters hstart))
  | many p ih =>
      rw [predictive, Bool.and_eq_true, Bool.and_eq_true] at h
      rcases h with ⟨⟨hp, hnullable⟩, hlists⟩
      have hnil := (not_nullable_iff p).mp hnullable
      have hsep := (ih hp).separated hlists
      refine ⟨.many (ih hp).orderly hnil hsep, ?_⟩
      intro k hk
      rw [extenders, List.mem_append]
      rcases extends_kstar hnil hsep hk with hp' | hstart
      · exact Or.inl ((ih hp).mem_extenders hp')
      · exact Or.inr (starts_mem_starters hstart)
  | named r p ih =>
      rw [predictive] at h
      cases hr : apart r with
      | some q =>
          rw [hr] at h
          have heq : named r p = q := of_decide_eq_true h
          rw [heq]
          exact hapart r q hr
      | none =>
          rw [hr] at h
          exact ⟨.named r (ih h).orderly, (ih h).mem_extenders⟩

end Piece

/-!
## The alternatives of a parameter
-/

namespace Grammar

open Piece

def whole : Rule → Option Piece :=
  fun _ => none

theorem foreseen_of_whole {p : Piece} (h : predictive whole p = true) : Foreseen p := by
  refine foreseen_of_predictive ?_ h
  intro r q hr
  cases hr

def openArrayParameter : Piece :=
  seq [identList, mark .colon, keyword .array, keyword .of, parameterType]

def defaultedParameter : Piece :=
  seq [ident, mark .colon, parameterType, mark .equals, constExpr]

def listedParameter : Piece :=
  seq [identList, mark .colon, parameterType, optional (seq [mark .equals, constExpr])]

theorem parameter_eq :
    parameter =
      named .parameter (either openArrayParameter (either defaultedParameter listedParameter)) :=
  rfl

def listedDefault : Piece :=
  seq [identList, mark .colon, parameterType, mark .equals, constExpr]

def listedPlain : Piece :=
  seq [identList, mark .colon, parameterType]

/-- A parameter whose alternatives are taken apart behind what they share. -/
def factoredParameter : Piece :=
  seq
    [identList, mark .colon,
      either (seq [keyword .array, keyword .of, parameterType])
        (seq [parameterType, optional (seq [mark .equals, constExpr])])]

theorem listedParameter_language :
    listedParameter.language = listedDefault.language + listedPlain.language := by
  simp only [listedParameter, listedDefault, listedPlain, seq, Piece.optional, language]
  rw [mul_add, mul_add, mul_add, mul_one]

theorem mem_identList_of_mem_ident {u : List Token} (h : u ∈ ident.language) :
    u ∈ identList.language := by
  have hempty := Language.nil_mem_kstar (both (mark .comma) ident).language
  have hlist := Language.append_mem_mul h hempty
  rw [List.append_nil] at hlist
  exact hlist

theorem mem_listedDefault_of_mem_defaultedParameter {u : List Token}
    (h : u ∈ defaultedParameter.language) : u ∈ listedDefault.language := by
  rcases Language.mem_mul.mp h with ⟨a, ha, b, hb, rfl⟩
  exact Language.append_mem_mul (mem_identList_of_mem_ident ha) hb

theorem parameter_language : parameter.language = factoredParameter.language := by
  have habsorbed :
      defaultedParameter.language + listedParameter.language = listedParameter.language := by
    ext u
    constructor
    · intro h
      rcases h with hdefaulted | hlisted
      · rw [listedParameter_language]
        exact Or.inl (mem_listedDefault_of_mem_defaultedParameter hdefaulted)
      · exact hlisted
    · intro h
      exact Or.inr h
  have hexpand : parameter.language =
      openArrayParameter.language + (defaultedParameter.language + listedParameter.language) := rfl
  rw [hexpand, habsorbed]
  simp only [openArrayParameter, listedParameter, factoredParameter, seq, language]
  rw [mul_add, mul_add]

theorem not_viable_of_foreign {p q : Piece} {k : Token} (hk : k ∉ alphabet q)
    (hp : ∀ u ∈ p.language, k ∈ u) {u v : List Token} (hu : u ∈ p.language) (huv : u <+: v) :
    ¬ Viable q.language v := by
  intro hviable
  exact hk (mem_alphabet hviable (huv.subset (hp u hu)))

theorem array_mem_of_openArrayParameter {u : List Token} (hu : u ∈ openArrayParameter.language) :
    Token.keyword .array ∈ u := by
  rcases Language.mem_mul.mp hu with ⟨a, _, b, hb, rfl⟩
  rcases Language.mem_mul.mp hb with ⟨c, _, d, hd, rfl⟩
  rcases Language.mem_mul.mp hd with ⟨e, he, f, _, rfl⟩
  rw [mem_language_token.mp he]
  simp

theorem equals_mem_of_listedDefault {u : List Token} (hu : u ∈ listedDefault.language) :
    Token.mark .equals ∈ u := by
  rcases Language.mem_mul.mp hu with ⟨a, _, b, hb, rfl⟩
  rcases Language.mem_mul.mp hb with ⟨c, _, d, hd, rfl⟩
  rcases Language.mem_mul.mp hd with ⟨e, _, f, hf, rfl⟩
  rcases Language.mem_mul.mp hf with ⟨g, hg, i, _, rfl⟩
  rw [mem_language_token.mp hg]
  simp

theorem openArrayParameter_supersedes :
    Supersedes openArrayParameter.language (either defaultedParameter listedParameter).language := by
  intro u hu v huv
  have hnone : ¬ Viable (either defaultedParameter listedParameter).language v := by
    refine not_viable_of_foreign (k := .keyword .array) (by decide) ?_ hu huv
    intro w hw
    exact array_mem_of_openArrayParameter hw
  constructor
  · intro hv
    exact absurd (viable_of_mem hv) hnone
  · intro hv
    exact absurd hv hnone

/-- A list of names with its default value cannot go on. -/
theorem listedDefault_not_extended {k : Token} : ¬ Extends listedDefault.language k := by
  intro h
  have hforeseen : Foreseen listedDefault := foreseen_of_whole (by decide)
  have hnone : extenders listedDefault = [] := by decide
  have hmem := hforeseen.mem_extenders h
  rw [hnone] at hmem
  cases hmem

theorem defaultedParameter_supersedes :
    Supersedes defaultedParameter.language listedParameter.language := by
  intro u hu v huv
  have hdefault : u ∈ listedDefault.language :=
    mem_listedDefault_of_mem_defaultedParameter hu
  have hsame : Viable listedParameter.language v → v = u := by
    intro hviable
    rcases huv with ⟨rest, rfl⟩
    rw [listedParameter_language] at hviable
    rcases viable_add.mp hviable with hlisted | hplain
    · cases rest with
      | nil => simp
      | cons k rest =>
          exact absurd (extends_of_mem hdefault hlisted) listedDefault_not_extended
    · refine absurd hplain (not_viable_of_foreign (k := .mark .equals) (by decide) ?_ hdefault
        (List.prefix_append u rest))
      intro w hw
      exact equals_mem_of_listedDefault hw
  constructor
  · intro hv
    rw [hsame (viable_of_mem hv)]
    exact hu
  · intro hv
    rw [hsame hv]
    exact viable_of_mem hu

theorem parameter_foreseen : Foreseen parameter := by
  have hopen : Foreseen openArrayParameter := foreseen_of_whole (by decide)
  have hdefaulted : Foreseen defaultedParameter := foreseen_of_whole (by decide)
  have hlisted : Foreseen listedParameter := foreseen_of_whole (by decide)
  have hfactored : Foreseen factoredParameter := foreseen_of_whole (by decide)
  constructor
  · rw [parameter_eq]
    exact .named .parameter (.either hopen.orderly
      (.either hdefaulted.orderly hlisted.orderly defaultedParameter_supersedes)
      openArrayParameter_supersedes)
  · intro k hk
    rw [parameter_language] at hk
    have hlists : extenders factoredParameter ⊆ extenders parameter := by decide
    exact hlists (hfactored.mem_extenders hk)

/-!
## The whole grammar
-/

/-- The production that is examined apart from the others. -/
def settled : Rule → Option Piece
  | .parameter => some parameter
  | _ => none

theorem foreseen_of_settled {p : Piece} (h : predictive settled p = true) : Foreseen p := by
  refine foreseen_of_predictive ?_ h
  intro r q hr
  cases r <;> cases hr
  exact parameter_foreseen

theorem unit_predictive : predictive settled unit = true := by
  decide +kernel

theorem unit_orderly : Orderly unit :=
  (foreseen_of_settled unit_predictive).orderly

end Grammar
end PascalUnit
