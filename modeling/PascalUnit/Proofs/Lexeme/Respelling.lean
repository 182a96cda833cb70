import Mathlib.Data.List.Forall2
import PascalUnit.Proofs.Lexeme.Decomposition

/-!
# Lexemes written again

The lexemes of a source can be written out anew: keywords in any letter case,
everything else as it was, with trivia of any kind around them and at least some
between any two.  Such a text has the same lexemes, because trivia continues no
token and a keyword is one in any letter case.
-/

namespace PascalUnit

/-- A text for a lexeme; letter case is free in a keyword, and nothing else is. -/
def Lexeme.RespeltBy (x : Lexeme) (text : List Char) : Prop :=
  if x.token.isKeyword then text.map Char.toUpper = x.text.toList.map Char.toUpper
  else text = x.text.toList

/--
A text that writes lexemes again, in order.  Trivia stands before each of them and
behind the last; it is not empty before a lexeme that is `inner`, that is, one
with another lexeme in front of it.
-/
inductive Respelled : Bool → List Lexeme → List Char → Prop where
  | done {inner : Bool} {gap : List Char} : Scan.Trivia gap → Respelled inner [] gap
  | next {inner : Bool} {x : Lexeme} {more : List Lexeme} {gap text rest : List Char} :
      Scan.Trivia gap → (inner = true → gap ≠ []) → x.RespeltBy text →
        Respelled true more rest → Respelled inner (x :: more) (gap ++ (text ++ rest))

namespace Scan

theorem spells_of_respelt {x : Lexeme} {text : List Char} (h : Spells x.token x.text.toList)
    (hrespelt : x.RespeltBy text) : Spells x.token text := by
  rcases x with ⟨token, source, span, position⟩
  cases token with
  | keyword k => exact Eq.trans hrespelt h
  | builtin | ident | number | literal | comment | mark | endOfInput =>
      have htext : text = source.toList := hrespelt
      rw [htext]
      exact h

theorem endsBefore_trivia {gap : List Char} (h : Trivia gap) (hne : gap ≠ []) (token : Token)
    (rest : List Char) : EndsBefore token (gap ++ rest) := by
  cases h with
  | nil => exact absurd rfl hne
  | @blank c gap hblank _ =>
      simp only [isBlank, Bool.or_eq_true, decide_eq_true_eq] at hblank
      rcases hblank with (((rfl | rfl) | rfl) | rfl) | rfl <;>
        exact endsBefore_of_head (by decide) (by decide) (by decide) (by decide) token _
  | braces =>
      exact endsBefore_of_head (by decide) (by decide) (by decide) (by decide) token _
  | stars =>
      exact endsBefore_of_head (by decide) (by decide) (by decide) (by decide) token _

theorem endsBefore_respelled {xs : List Lexeme} {cs : List Char} (h : Respelled true xs cs)
    (token : Token) : EndsBefore token cs := by
  cases h with
  | done hgap =>
      by_cases hne : cs = []
      · rw [hne]
        exact endsBefore_nil token
      · have hends := endsBefore_trivia hgap hne token []
        rwa [List.append_nil] at hends
  | next hgap hne _ _ => exact endsBefore_trivia hgap (hne rfl) token _

end Scan

/-- The token stands in the source over a text for the lexeme. -/
structure Lexeme.StandsUnder (source : List Char) (x : Lexeme) (y : PlacedToken) : Prop where
  token : y.token = x.token
  respelt : ∃ text, Text.slice? source y.span = some text ∧ x.RespeltBy text

theorem Respelled.exists_tiling {inner : Bool} {xs : List Lexeme} {cs : List Char}
    (h : Respelled inner xs cs) (hxs : ∀ x ∈ xs, Scan.Spells x.token x.text.toList)
    {source before : List Char} (hsource : source = before ++ cs) :
    ∃ entries, Scan.Tiling (Text.byteLength before) cs entries ∧
      List.Forall₂ (Lexeme.StandsUnder source) xs entries := by
  induction h generalizing before with
  | done hgap => exact ⟨[], .done hgap, .nil⟩
  | @next _ x more gap text rest hgap _ hrespelt hmore ih =>
      rw [List.forall_mem_cons] at hxs
      have hwhole : source = before ++ gap ++ text ++ rest := by simp [hsource]
      have hslice : Text.slice? source
          (Scan.spanAt (Text.byteLength before + Text.byteLength gap) text) = some text :=
        Text.slice?_eq_some_iff.mpr ⟨before ++ gap, rest, by simp [hwhole],
          Text.byteLength_append _ _, by rw [Text.byteLength_append]; rfl⟩
      rcases ih hxs.2 hwhole with ⟨entries, htiling, hentries⟩
      simp only [Text.byteLength_append] at htiling
      refine ⟨_, .next hgap (Scan.spells_of_respelt hxs.1 hrespelt)
        (Scan.endsBefore_respelled hmore x.token) htiling, .cons ?_ hentries⟩
      exact ⟨rfl, text, hslice, hrespelt⟩

/-!
## Lexemes of a source
-/

theorem lexemes_eq_ok_iff {cs : List Char} {ls : List Lexeme} :
    lexemes cs = .ok ls ↔ ∃ entries, Scan.Tiling 0 cs entries ∧
      ls = (entries ++ [Scan.endAt 0 cs]).map (PlacedToken.toLexeme (LineTable.ofText cs) cs) := by
  have hscan : lexemes cs = .ok ls ↔ ∃ tokens, placedTokens cs = .ok tokens ∧
      ls = tokens.map (PlacedToken.toLexeme (LineTable.ofText cs) cs) := by
    unfold lexemes
    cases placedTokens cs with
    | error e => simp
    | ok tokens => simp [eq_comm]
  rw [hscan]
  constructor
  · intro h
    rcases h with ⟨tokens, htokens, rfl⟩
    rcases Scan.tokensFrom_eq_ok_iff.mp (placedTokens_eq_ok_iff.mp htokens) with
      ⟨entries, rfl, htiling⟩
    exact ⟨entries, htiling, rfl⟩
  · intro h
    rcases h with ⟨entries, htiling, rfl⟩
    exact ⟨_, placedTokens_eq_ok_iff.mpr (Scan.tokensFrom_of_tiling htiling), rfl⟩

theorem Scan.Tiling.spells_toLexeme {cs : List Char} {entries : List PlacedToken}
    (h : Tiling 0 cs entries) (table : LineTable) :
    ∀ x ∈ entries.map (PlacedToken.toLexeme table cs), Spells x.token x.text.toList := by
  intro x hx
  rcases List.mem_map.mp hx with ⟨y, hy, rfl⟩
  rcases (decomposition_iff_tiling.mpr h).texts y hy with ⟨text, _, hslice, _, hspells, _⟩
  have htext : y.sourceText cs = String.ofList text := by
    rw [PlacedToken.sourceText, hslice]
  show Spells y.token (y.sourceText cs).toList
  rw [htext, String.toList_ofList]
  exact hspells

theorem Scan.Tiling.starts_increase {offset : Nat} {cs : List Char}
    {entries : List PlacedToken} (h : Tiling offset cs entries) :
    (entries ++ [endAt offset cs]).Pairwise fun x y => x.span.start < y.span.start := by
  induction h with
  | done => exact List.pairwise_singleton _ _
  | @next offset gap text rest token more _ hspells _ hmore ih =>
      rw [endAt_append, endAt_append, List.cons_append, List.pairwise_cons]
      refine ⟨?_, ih⟩
      intro y hy
      have hpos := Text.byteLength_pos (ne_nil_of_spells hspells)
      have hafter : offset + Text.byteLength gap + Text.byteLength text ≤ y.span.start := by
        rcases List.mem_append.mp hy with hy | hy
        · exact hmore.start_le y hy
        · rw [List.mem_singleton.mp hy]
          exact Nat.le_add_right _ _
      show offset + Text.byteLength gap < y.span.start
      omega

end PascalUnit
