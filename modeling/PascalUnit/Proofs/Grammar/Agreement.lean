import PascalUnit.Proofs.Grammar.Declarative
import PascalUnit.Proofs.Grammar.Language

/-!
# The pieces and the table agree

The pieces that readings use are nested where the table refers to rules by name,
and two of them factor out what their alternatives share.  They have the same
derivation trees nevertheless: `derivationTree_goal_iff` says so for the whole
grammar, and `spellsUnit_iff` for the rows of kinds it spells.
-/

namespace PascalUnit

open scoped Computability

namespace Piece

/-!
## Pieces with the same derivations
-/

/-- Two pieces derive the same trees for the same tokens. -/
def Agrees (p q : Piece) : Prop :=
  ∀ (leafText : PlacedToken → String) (xs : List PlacedToken) (ts : List Tree),
    Derives leafText p xs ts ↔ Derives leafText q xs ts

namespace Agrees

theorem refl (p : Piece) : Agrees p p :=
  fun _ _ _ => Iff.rfl

theorem symm {p q : Piece} (h : Agrees p q) : Agrees q p :=
  fun leafText xs ts => (h leafText xs ts).symm

theorem trans {p q r : Piece} (h : Agrees p q) (h' : Agrees q r) : Agrees p r :=
  fun leafText xs ts => (h leafText xs ts).trans (h' leafText xs ts)

theorem both {p q q' : Piece} (h : Agrees q q') : Agrees (both p q) (both p q') := by
  intro leafText xs ts
  simp only [derives_both, h leafText]

theorem either {p p' q q' : Piece} (hp : Agrees p p') (hq : Agrees q q') :
    Agrees (either p q) (either p' q') := by
  intro leafText xs ts
  rw [derives_either, derives_either, hp leafText, hq leafText]

theorem named {r : Rule} {p q : Piece} (h : Agrees p q) : Agrees (named r p) (named r q) := by
  intro leafText xs ts
  simp only [derives_named, h leafText]

theorem either_comm (p q : Piece) : Agrees (.either p q) (.either q p) := by
  intro leafText xs ts
  rw [derives_either, derives_either, or_comm]

theorem either_assoc (p q r : Piece) :
    Agrees (.either (.either p q) r) (.either p (.either q r)) := by
  intro leafText xs ts
  simp only [derives_either, or_assoc]

theorem both_either (p q r : Piece) :
    Agrees (.both p (.either q r)) (.either (.both p q) (.both p r)) := by
  intro leafText xs ts
  rw [derives_either]
  constructor
  · intro h
    rcases derives_both.mp h with ⟨ys, zs, us, vs, rfl, rfl, hp, hqr⟩
    rcases derives_either.mp hqr with hq | hr
    · exact Or.inl (.both hp hq)
    · exact Or.inr (.both hp hr)
  · intro h
    rcases h with h | h
    · rcases derives_both.mp h with ⟨ys, zs, us, vs, rfl, rfl, hp, hq⟩
      exact .both hp (.first hq)
    · rcases derives_both.mp h with ⟨ys, zs, us, vs, rfl, rfl, hp, hr⟩
      exact .both hp (.second hr)

theorem both_oneOf (p q : Piece) (qs : List Piece) :
    Agrees (.both p (oneOf q qs)) (oneOf (.both p q) (qs.map (.both p))) := by
  induction qs generalizing q with
  | nil => exact refl _
  | cons q' qs ih => exact (both_either p q _).trans (either (refl _) (ih q'))

end Agrees
end Piece

/-!
## Productions and right-hand sides
-/

namespace Grammar

def piece : Rule → Piece
  | .goal => goal
  | .unit => unit
  | .interfaceSection => interfaceSection
  | .interfaceDecl => interfaceDecl
  | .exportedHeading => exportedHeading
  | .functionHeading => functionHeading
  | .procedureHeading => procedureHeading
  | .formalParms => formalParms
  | .formalParm => formalParm
  | .parameter => parameter
  | .parameterType => parameterType
  | .returnType => returnType
  | .implementationSection => implementationSection
  | .declSection => declSection
  | .procedureDeclSection => procedureDeclSection
  | .procedureDecl => procedureDecl
  | .functionDecl => functionDecl
  | .block => block
  | .statement => statement
  | .usesClause => usesClause
  | .constSection => constSection
  | .constDecl => constDecl
  | .typedConstant => typedConstant
  | .constExpr => constExpr
  | .number => number
  | .string => string
  | .varSection => varSection
  | .varDecl => varDecl
  | .subrangeType => subrangeType
  | .type => type
  | .simpleType => simpleType
  | .ordinalType => ordinalType
  | .ordIdent => ordIdent
  | .realType => realType
  | .stringType => stringType
  | .typeId => typeId
  | .qualId => qualId
  | .identList => identList
  | .ident => ident

end Grammar

namespace Ebnf

open Piece Grammar

/-- A right-hand side as a piece, with the piece of each rule in its place. -/
def toPiece : Ebnf → Piece
  | empty => .nothing
  | terminal k => .token k
  | rule r => piece r
  | seq e f => .both (toPiece e) (toPiece f)
  | alt e f => .either (toPiece e) (toPiece f)
  | star e => .many (toPiece e)

theorem constDecl_agrees : Agrees constDecl (.named .constDecl (toPiece (body .constDecl))) :=
  (Agrees.both_oneOf _ _ [_]).named

theorem varDecl_agrees : Agrees varDecl (.named .varDecl (toPiece (body .varDecl))) := by
  -- the forms with a type, the initializer and its absence taken together
  have htyped : Agrees typedVariable
      (.either
        (.both type (.optional (.seq [.mark .equals, constExpr])))
        (.both type (.seq [.keyword .absolute, ident]))) := by
    refine Agrees.trans (Agrees.both ?_) (Agrees.both_either _ _ _)
    refine (Agrees.either_assoc _ _ _).trans ?_
    exact ((Agrees.refl _).either (Agrees.either_comm _ _)).trans (Agrees.either_assoc _ _ _).symm
  have hforms : Agrees (oneOf arrayVariable [typedVariable])
      (oneOf
        (.both type (.optional (.seq [.mark .equals, constExpr])))
        [.both type (.seq [.keyword .absolute, ident]),
          .both (.keyword .array) (.seq [.keyword .of, type]),
          .both (.keyword .array)
            (.seq [.mark .openBracket, subrangeType, .mark .closeBracket, .keyword .of, type])]) := by
    refine (Agrees.either_comm _ _).trans ?_
    exact (htyped.either (Agrees.both_either _ _ _)).trans (Agrees.either_assoc _ _ _)
  refine Agrees.named (Agrees.trans (Agrees.both ?_) (Agrees.both_oneOf _ _ [_, _, _]))
  exact hforms.both.trans (Agrees.both_oneOf _ _ [_, _, _])

theorem piece_agrees (r : Rule) : Agrees (piece r) (.named r (toPiece (body r))) := by
  cases r with
  | constDecl => exact constDecl_agrees
  | varDecl => exact varDecl_agrees
  | _ => exact Agrees.refl _

end Ebnf

/-!
## Derivations
-/

def PlacedToken.terminal (leafText : PlacedToken → String) (x : PlacedToken) : Terminal :=
  ⟨x.token, leafText x⟩

theorem map_kind_terminal (leafText : PlacedToken → String) (xs : List PlacedToken) :
    (xs.map (PlacedToken.terminal leafText)).map Terminal.kind = kinds xs := by
  rw [List.map_map]
  rfl

namespace Ebnf

open Piece Grammar

theorem Derives.toPiece {e : Ebnf} {w : List Terminal} {ts : List Tree} (h : Derives e w ts)
    {leafText : PlacedToken → String} {xs : List PlacedToken}
    (hxs : xs.map (PlacedToken.terminal leafText) = w) :
    Piece.Derives leafText e.toPiece xs ts := by
  induction h generalizing xs with
  | empty =>
      rw [List.map_eq_nil_iff.mp hxs]
      exact .nothing
  | terminal x =>
      rcases List.map_eq_singleton_iff.mp hxs with ⟨y, rfl, rfl⟩
      exact .token y
  | @rule r w ts _ ih =>
      exact (piece_agrees r leafText _ _).mpr (.named (ih hxs))
  | seq _ _ ihe ihf =>
      rcases List.map_eq_append_iff.mp hxs with ⟨ys, zs, rfl, hys, hzs⟩
      exact .both (ihe hys) (ihf hzs)
  | left _ ih => exact .first (ih hxs)
  | right _ ih => exact .second (ih hxs)
  | stop =>
      rw [List.map_eq_nil_iff.mp hxs]
      exact .stop
  | more _ _ ihe ihstar =>
      rcases List.map_eq_append_iff.mp hxs with ⟨ys, zs, rfl, hys, hzs⟩
      exact .more (ihe hys) (ihstar hzs)

theorem derives_star_of_many {leafText : PlacedToken → String} {e : Ebnf} {n : Nat}
    (hbody : ∀ {xs : List PlacedToken} {ts : List Tree}, Tree.sizeAll ts ≤ n →
      Piece.Derives leafText e.toPiece xs ts →
        Derives e (xs.map (PlacedToken.terminal leafText)) ts)
    {p : Piece} {xs : List PlacedToken} {ts : List Tree} (h : Piece.Derives leafText p xs ts)
    (hp : p = .many e.toPiece) (hsize : Tree.sizeAll ts ≤ n) :
    Derives (.star e) (xs.map (PlacedToken.terminal leafText)) ts := by
  induction h with
  | stop => exact .stop
  | @more q ys zs us vs hfirst hrest _ ih =>
      cases hp
      rw [Tree.sizeAll_append] at hsize
      rw [List.map_append]
      exact .more (hbody (by omega) hfirst) (ih rfl (by omega))
  | nothing | token | both | first | second | named => cases hp

theorem derives_of_toPiece {leafText : PlacedToken → String} (n : Nat) {e : Ebnf}
    {xs : List PlacedToken} {ts : List Tree} (hsize : Tree.sizeAll ts ≤ n)
    (h : Piece.Derives leafText e.toPiece xs ts) :
    Derives e (xs.map (PlacedToken.terminal leafText)) ts := by
  -- a rule is left for its right-hand side only below a node, where the trees are smaller
  induction n using Nat.strong_induction_on generalizing e xs ts with
  | _ n ihn =>
      induction e generalizing xs ts with
      | empty =>
          cases h
          exact .empty
      | terminal k =>
          cases h with
          | token x => exact .terminal (x.terminal leafText)
      | rule r =>
          rcases derives_named.mp ((piece_agrees r leafText _ _).mp h) with ⟨us, rfl, hbody⟩
          have hless : Tree.sizeAll us < n := by
            simp only [Tree.sizeAll, Tree.size] at hsize
            omega
          exact .rule (ihn _ hless (Nat.le_refl _) hbody)
      | seq e f ihe ihf =>
          rcases derives_both.mp h with ⟨ys, zs, us, vs, rfl, rfl, he, hf⟩
          rw [Tree.sizeAll_append] at hsize
          rw [List.map_append]
          exact .seq (ihe (by omega) he) (ihf (by omega) hf)
      | alt e f ihe ihf =>
          rcases derives_either.mp h with he | hf
          · exact .left (ihe hsize he)
          · exact .right (ihf hsize hf)
      | star e ih => exact derives_star_of_many ih h rfl hsize

theorem exists_placed (w : List Terminal) :
    ∃ (leafText : PlacedToken → String) (xs : List PlacedToken),
      xs.map (PlacedToken.terminal leafText) = w := by
  -- the span of a token tells which terminal it carries
  refine ⟨fun x => (w[x.span.start]?.map Terminal.text).getD "",
    w.mapIdx fun i x => ⟨x.kind, ⟨i, i⟩⟩, ?_⟩
  refine List.ext_getElem (by simp) ?_
  intro i hi _
  have hlt : i < w.length := by simpa using hi
  simp [PlacedToken.terminal, hlt]

theorem Derives.kinds_mem {e : Ebnf} {w : List Terminal} {ts : List Tree}
    (h : Derives e w ts) : w.map Terminal.kind ∈ e.toPiece.language := by
  rcases exists_placed w with ⟨leafText, xs, rfl⟩
  rw [map_kind_terminal]
  exact (h.toPiece rfl).kinds_mem_language

end Ebnf

namespace Grammar

open Piece

theorem derivationTree_goal_iff {leafText : PlacedToken → String} {xs : List PlacedToken}
    {t : Tree} :
    DerivationTree .goal (xs.map (PlacedToken.terminal leafText)) t ↔
      Derives leafText goal xs [t] := by
  constructor
  · intro h
    exact Ebnf.Derives.toPiece h rfl
  · intro h
    exact Ebnf.derives_of_toPiece (e := .rule .goal) _ (Nat.le_refl _) h

theorem spellsUnit_iff {ks : List Token} : SpellsUnit ks ↔ ks ∈ unit.language := by
  constructor
  · intro h
    rcases h with ⟨w, t, h, rfl⟩
    exact Ebnf.Derives.kinds_mem h
  · intro h
    -- spans and texts are free
    have hkinds : kinds (ks.map fun k => ⟨k, ⟨0, 0⟩⟩) = ks := by
      simp [kinds, Function.comp_def]
    rw [← hkinds] at h
    rcases exists_derives_of_kinds_mem (fun _ => "") h with ⟨ts, hts⟩
    refine ⟨_, .node .goal ts, derivationTree_goal_iff.mpr (.named hts), ?_⟩
    rw [map_kind_terminal, hkinds]

end Grammar
end PascalUnit
