import PascalUnit.Proofs.Lexeme.Decomposition
import PascalUnit.Proofs.Tree.Acceptance

/-!
# Reading back the text of a tree

The text of a tree is its leaves with a space between any two.  Scanned again, it
gives the terminals of the tree back: a leaf of every kind spells its kind, and a
space continues none of them.  The terminals determine the tree, so that a parsed
unit is recovered from its text.
-/

namespace PascalUnit

/-!
## Canonical terminals
-/

/-- A terminal whose text is of its kind, and the fixed spelling when there is one. -/
structure Terminal.Canonical (x : Terminal) : Prop where
  spells : Scan.Spells x.kind x.text.toList
  fixed : ∀ text ∈ x.kind.spelling?, x.text = text

namespace Scan

theorem spells_of_spelling? {token : Token} {text : String} (h : token.spelling? = some text) :
    Spells token text.toList := by
  cases token with
  | keyword k =>
      cases h
      show k.spelling.toList.map Char.toUpper = k.spelling.toList
      cases k <;> decide
  | builtin b =>
      cases h
      rfl
  | mark m =>
      cases h
      rfl
  | ident | number | literal | comment | endOfInput => cases h

theorem canonical_terminal {cs text : List Char} {x : PlacedToken}
    (hslice : Text.slice? cs x.span = some text) (hspells : Spells x.token text) :
    (x.terminal (PlacedToken.leafText cs)).Canonical := by
  have hsource : x.sourceText cs = String.ofList text := by
    rw [PlacedToken.sourceText, hslice]
  constructor
  · show Spells x.token (x.leafText cs).toList
    rw [PlacedToken.leafText]
    cases hfixed : x.token.spelling? with
    | some spelling => exact spells_of_spelling? hfixed
    | none =>
        show Spells x.token (x.sourceText cs).toList
        rw [hsource, String.toList_ofList]
        exact hspells
  · intro spelling hfixed
    have hspelling : x.token.spelling? = some spelling := hfixed
    show x.leafText cs = spelling
    rw [PlacedToken.leafText, hspelling]

end Scan

theorem significant_of_decomposition {cs : List Char} {entries : List PlacedToken}
    (h : Decomposition cs entries) (span : Span) :
    significant (entries ++ [⟨.endOfInput, span⟩]) = entries := by
  rw [significant, List.filter_append, List.filter_eq_self.mpr]
  · simp
  · intro x hx
    exact decide_eq_true (h.spelled x hx)

theorem canonical_of_placedTokens {cs : List Char} {tokens : List PlacedToken}
    (h : placedTokens cs = .ok tokens) : ∀ x ∈ terminals cs tokens, x.Canonical := by
  rcases Scan.tokensFrom_eq_ok_iff.mp (placedTokens_eq_ok_iff.mp h) with
    ⟨entries, rfl, htiling⟩
  have hdecomposition := decomposition_iff_tiling.mpr htiling
  intro x hx
  rw [terminals, Scan.endAt, significant_of_decomposition hdecomposition] at hx
  rcases List.mem_map.mp hx with ⟨y, hy, rfl⟩
  rcases hdecomposition.texts y hy with ⟨text, rest, hslice, _, hspells, _⟩
  exact Scan.canonical_terminal hslice hspells

/-!
## Printed terminals
-/

namespace Terminal

def printedAfter : List Terminal → List Char
  | [] => []
  | x :: more => ' ' :: (x.text.toList ++ printedAfter more)

def printed : List Terminal → List Char
  | [] => []
  | x :: more => x.text.toList ++ printedAfter more

theorem printed_eq (w : List Terminal) :
    (" ".intercalate (w.map Terminal.text)).toList = printed w := by
  cases w with
  | nil => rfl
  | cons x more =>
      induction more generalizing x with
      | nil => simp [printed, printedAfter]
      | cons y more ih =>
          have hmore := ih y
          rw [List.map_cons] at hmore
          rw [List.map_cons, List.map_cons, String.intercalate_cons_cons, String.toList_append,
            String.toList_append, hmore, List.append_assoc]
          rfl

def layout (offset : Nat) : List Terminal → List PlacedToken
  | [] => []
  | x :: more =>
      ⟨x.kind, Scan.spanAt offset x.text.toList⟩ ::
        layout (offset + Text.byteLength x.text.toList + 1) more

theorem endsBefore_printedAfter (token : Token) (w : List Terminal) :
    Scan.EndsBefore token (printedAfter w) := by
  cases w with
  | nil => exact Scan.endsBefore_nil token
  | cons x more => exact Scan.endsBefore_space token _

theorem tiling_printedAfter {w : List Terminal} (h : ∀ x ∈ w, x.Canonical) (offset : Nat) :
    Scan.Tiling offset (printedAfter w) (layout (offset + 1) w) := by
  induction w generalizing offset with
  | nil => exact .done .nil
  | cons x more ih =>
      rw [List.forall_mem_cons] at h
      have hgap : Scan.Trivia [' '] := .blank rfl .nil
      refine .next hgap h.1.spells (endsBefore_printedAfter _ _) ?_
      exact ih h.2 _

theorem tiling_printed {w : List Terminal} (h : ∀ x ∈ w, x.Canonical) :
    Scan.Tiling 0 (printed w) (layout 0 w) := by
  cases w with
  | nil => exact .done .nil
  | cons x more =>
      rw [List.forall_mem_cons] at h
      refine .next .nil h.1.spells (endsBefore_printedAfter _ _) ?_
      exact tiling_printedAfter h.2 _

theorem terminal_at {cs before after : List Char} {x : Terminal} (hx : x.Canonical)
    (hcs : cs = before ++ (x.text.toList ++ after)) :
    PlacedToken.terminal (PlacedToken.leafText cs)
      ⟨x.kind, Scan.spanAt (Text.byteLength before) x.text.toList⟩ = x := by
  have htext : PlacedToken.leafText cs
      ⟨x.kind, Scan.spanAt (Text.byteLength before) x.text.toList⟩ = x.text := by
    rw [PlacedToken.leafText]
    cases hfixed : x.kind.spelling? with
    | some spelling => exact (hx.fixed spelling hfixed).symm
    | none =>
        show PlacedToken.sourceText cs _ = x.text
        rw [PlacedToken.sourceText, hcs, Scan.spanAt, Text.slice?_append]
        exact String.ofList_toList
  rw [PlacedToken.terminal, htext]

theorem terminals_printedAfter {cs before : List Char} {w : List Terminal}
    (h : ∀ x ∈ w, x.Canonical) (hcs : cs = before ++ printedAfter w) :
    (layout (Text.byteLength before + 1) w).map
      (PlacedToken.terminal (PlacedToken.leafText cs)) = w := by
  induction w generalizing before with
  | nil => rfl
  | cons x more ih =>
      rw [List.forall_mem_cons] at h
      have hspace : cs = (before ++ [' ']) ++ (x.text.toList ++ printedAfter more) := by
        rw [hcs, List.append_assoc]
        rfl
      have hfirst := terminal_at h.1 hspace
      have hmore := ih h.2 (hspace.trans (List.append_assoc _ _ _).symm)
      rw [Text.byteLength_append] at hfirst hmore
      rw [Text.byteLength_append] at hmore
      rw [layout, List.map_cons]
      exact congrArg₂ List.cons hfirst hmore

theorem terminals_printed {w : List Terminal} (h : ∀ x ∈ w, x.Canonical) :
    (layout 0 w).map (PlacedToken.terminal (PlacedToken.leafText (printed w))) = w := by
  cases w with
  | nil => rfl
  | cons x more =>
      rw [List.forall_mem_cons] at h
      have hfirst := terminal_at h.1 (List.nil_append (printed (x :: more))).symm
      have hmore := terminals_printedAfter h.2 (@rfl _ (printed (x :: more)))
      rw [layout, List.map_cons, Nat.zero_add]
      exact congrArg₂ List.cons hfirst hmore

/-- Printed terminals are scanned back. -/
theorem placedTokens_printed {w : List Terminal} (h : ∀ x ∈ w, x.Canonical) :
    ∃ tokens, placedTokens (printed w) = .ok tokens ∧ terminals (printed w) tokens = w := by
  have htiling := tiling_printed h
  refine ⟨_, placedTokens_eq_ok_iff.mpr (Scan.tokensFrom_of_tiling htiling), ?_⟩
  rw [terminals, Scan.endAt,
    significant_of_decomposition (decomposition_iff_tiling.mpr htiling)]
  exact terminals_printed h

end Terminal

/-!
## Trees
-/

namespace Tree

theorem parse_eq_ok_iff {cs : List Char} {t : Tree} :
    parse cs = .ok t ↔
      ∃ tokens, placedTokens cs = .ok tokens ∧ ofTokens cs tokens = .ok t := by
  unfold parse
  cases placedTokens cs with
  | error e => simp
  | ok tokens =>
      cases hread : ofTokens cs tokens with
      | error e => simp [hread]
      | ok u => simp [hread]

theorem text_of_parse {cs : List Char} {tokens : List PlacedToken} {t : Tree}
    (h : ofTokens cs tokens = .ok t) : t.text.toList = Terminal.printed (terminals cs tokens) := by
  rw [text, leafTexts_of_derivationTree (ofTokens_eq_ok_iff.mp h).1, Terminal.printed_eq]

/-- The text of a parsed unit is a spelling of the same unit. -/
theorem parse_text {cs : List Char} {t : Tree} (h : parse cs = .ok t) :
    parse t.text.toList = .ok t := by
  rcases parse_eq_ok_iff.mp h with ⟨tokens, hscan, hread⟩
  rcases Terminal.placedTokens_printed (canonical_of_placedTokens hscan) with
    ⟨reprinted, hrescan, hterminals⟩
  -- the same terminals are read again, only their spans are new
  rw [← text_of_parse hread] at hrescan hterminals
  refine parse_eq_ok_iff.mpr ⟨reprinted, hrescan, ?_⟩
  rw [ofTokens_eq_ok_iff, hterminals]
  exact ofTokens_eq_ok_iff.mp hread

/-- The unit `unit a;(*x*)interface const b='o''k'; .` -/
def quotedConstant : Tree :=
  .node .goal
    [.node .unit
      [.leaf "UNIT", .node .ident [.leaf "a"], .leaf ";",
        .node .interfaceSection
          [.leaf "INTERFACE",
            .node .interfaceDecl
              [.node .constSection
                [.leaf "CONST",
                  .node .constDecl
                    [.node .ident [.leaf "b"], .leaf "=",
                      .node .constExpr [.node .string [.leaf "'o''k'"]]],
                  .leaf ";"]]],
        .leaf "."]]

theorem parse_text_quotedConstant :
    parse "unit a;(*x*)interface const b='o''k'; .".toList = .ok quotedConstant ∧
      quotedConstant.text = "UNIT a ; INTERFACE CONST b = 'o''k' ; ." ∧
      parse quotedConstant.text.toList = .ok quotedConstant := by
  have hparse : parse "unit a;(*x*)interface const b='o''k'; .".toList = .ok quotedConstant := by
    decide +kernel
  exact ⟨hparse, by decide +kernel, parse_text hparse⟩

end Tree
end PascalUnit
