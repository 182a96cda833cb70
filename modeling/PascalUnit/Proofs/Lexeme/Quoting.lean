import PascalUnit.Proofs.Lexeme.Concatenation

/-!
# Literals and their values

A value without line breaks is quoted by writing its quotes twice and putting quotes
around it.  A scan undoes that wherever a literal begins: it finds the whole quoted
value, however many quotes stand in a row in it, and goes on right behind it.  Nor is
there any other literal, and none is the quoted form of two values.

A literal does not begin right behind another one, since their quotes would run
together.  Behind any other text that can be divided into lexemes it does.
-/

namespace PascalUnit
namespace Scan

/-!
## Quoting can be undone
-/

theorem doubled_cancel {c d : Char} {u v : List Char}
    (h : (if c = '\'' then ['\'', '\''] else [c]) ++ u =
      (if d = '\'' then ['\'', '\''] else [d]) ++ v) : c = d ∧ u = v := by
  by_cases hc : c = '\'' <;> by_cases hd : d = '\''
  · rw [if_pos hc, if_pos hd] at h
    exact ⟨hc.trans hd.symm, List.append_cancel_left h⟩
  · rw [if_pos hc, if_neg hd] at h
    exact absurd (List.cons.inj h).1.symm hd
  · rw [if_neg hc, if_pos hd] at h
    exact absurd (List.cons.inj h).1 hc
  · rw [if_neg hc, if_neg hd] at h
    exact List.cons.inj h

theorem doubled_cons_ne_nil (c : Char) (value : List Char) : doubled (c :: value) ≠ [] := by
  rw [doubled_cons]
  by_cases hc : c = '\'' <;> simp [hc]

theorem doubled_injective : Function.Injective doubled := by
  intro v w h
  induction v generalizing w with
  | nil =>
      cases w with
      | nil => rfl
      | cons d w => exact absurd h.symm (doubled_cons_ne_nil d w)
  | cons c v ih =>
      cases w with
      | nil => exact absurd h (doubled_cons_ne_nil c v)
      | cons d w =>
          rw [doubled_cons, doubled_cons] at h
          rcases doubled_cancel h with ⟨rfl, hrest⟩
          rw [ih hrest]

theorem quoted_injective : Function.Injective quoted := by
  intro v w h
  exact doubled_injective (List.append_cancel_right (List.cons.inj h).2)

/-!
## Where a literal can begin
-/

theorem endsBefore_quote {token : Token} (h : token ≠ .literal) (rest : List Char) :
    EndsBefore token ('\'' :: rest) := by
  cases token with
  | literal => exact absurd rfl h
  | keyword | builtin | ident | number =>
      intro c hc
      cases hc
      rfl
  | mark m => simp [endsBefore_mark_iff]
  | comment | endOfInput => exact trivial

theorem getLast?_quoted (value : List Char) : (quoted value).getLast? = some '\'' := by
  rw [quoted, ← List.cons_append, List.getLast?_concat]

/-- Behind a text that does not end with a quote, a quoted value begins on its own. -/
theorem endsBefore_quoted {before text : List Char} {token : Token}
    (hbefore : before.getLast? ≠ some '\'') (hspells : Spells token text)
    (hsuffix : text <:+ before) (value rest : List Char) :
    EndsBefore token (quoted value ++ rest) := by
  apply endsBefore_quote
  -- a literal at the end of the text would leave its closing quote there
  rintro rfl
  rcases hspells with ⟨earlier, _, rfl⟩
  rcases hsuffix with ⟨front, rfl⟩
  apply hbefore
  rw [List.getLast?_append_of_ne_nil _ (by simp [quoted]), getLast?_quoted]

/-!
## Literals that are found
-/

theorem tokensFrom_quoted (offset : Nat) {value rest : List Char} (hvalue : OnOneLine value)
    (hrest : rest.head? ≠ some '\'') :
    tokensFrom offset (quoted value ++ rest) =
      (tokensFrom (offset + Text.byteLength (quoted value)) rest).map
        (⟨.literal, spanAt offset (quoted value)⟩ :: ·) :=
  tokensFrom_lexeme offset (front_literal hvalue hrest)

theorem Tiling.tokensFrom_quoted {offset : Nat} {before value rest : List Char}
    {entries : List PlacedToken} (h : Tiling offset before entries)
    (hbefore : before.getLast? ≠ some '\'') (hvalue : OnOneLine value)
    (hrest : rest.head? ≠ some '\'') :
    tokensFrom offset (before ++ (quoted value ++ rest)) =
      (tokensFrom (offset + Text.byteLength before + Text.byteLength (quoted value)) rest).map
        (entries ++ ⟨.literal, spanAt (offset + Text.byteLength before) (quoted value)⟩ :: ·) := by
  rw [h.tokensFrom_append fun hspells hsuffix => endsBefore_quoted hbefore hspells hsuffix _ _,
    Scan.tokensFrom_quoted _ hvalue hrest]
  cases tokensFrom (offset + Text.byteLength before + Text.byteLength (quoted value)) rest with
  | error e => rfl
  | ok tokens => rfl

theorem existsUnique_value {text : List Char} (h : Spells .literal text) :
    ∃! value, OnOneLine value ∧ text = quoted value := by
  rcases h with ⟨value, hvalue, rfl⟩
  refine ⟨value, ⟨hvalue, rfl⟩, ?_⟩
  intro other hother
  exact (quoted_injective hother.2).symm

end Scan

/-!
## Sources
-/

theorem existsUnique_value_of_lexemes {cs : List Char} {xs : List Lexeme}
    (h : lexemes cs = .ok xs) {x : Lexeme} (hx : x ∈ xs) (hliteral : x.token = .literal) :
    ∃! value, Scan.OnOneLine value ∧ x.text.toList = Scan.quoted value := by
  rcases lexemes_eq_ok_iff.mp h with ⟨entries, htiling, rfl⟩
  rw [List.map_append, List.mem_append, List.map_singleton, List.mem_singleton] at hx
  rcases hx with hx | hend
  · have hspells := htiling.spells_toLexeme _ x hx
    rw [hliteral] at hspells
    exact Scan.existsUnique_value hspells
  · rw [hend] at hliteral
    cases hliteral

/--
A quoted value is scanned as one literal over exactly that text, and the scan goes on
behind it: at any offset, and in a source behind any text that can be divided and does
not end with a quote.  Every literal of a source is the quoted form of exactly one value.
-/
theorem literals_invert_quoting :
    (∀ offset value rest, Scan.OnOneLine value → rest.head? ≠ some '\'' →
      Scan.tokensFrom offset (Scan.quoted value ++ rest) =
        (Scan.tokensFrom (offset + Text.byteLength (Scan.quoted value)) rest).map
          (⟨.literal, ⟨offset, offset + Text.byteLength (Scan.quoted value)⟩⟩ :: ·)) ∧
    (∀ before tokens value rest, placedTokens before = .ok tokens →
      before.getLast? ≠ some '\'' → Scan.OnOneLine value → rest.head? ≠ some '\'' →
        ∃ entries, tokens = entries ++
            [⟨.endOfInput, ⟨Text.byteLength before, Text.byteLength before⟩⟩] ∧
          Scan.tokensFrom 0 (before ++ (Scan.quoted value ++ rest)) =
            (Scan.tokensFrom (Text.byteLength (before ++ Scan.quoted value)) rest).map
              (entries ++ ⟨.literal, ⟨Text.byteLength before,
                Text.byteLength (before ++ Scan.quoted value)⟩⟩ :: ·)) ∧
    ∀ cs xs, lexemes cs = .ok xs → ∀ x ∈ xs, x.token = .literal →
      ∃! value, Scan.OnOneLine value ∧ x.text.toList = Scan.quoted value := by
  refine ⟨?_, ?_, ?_⟩
  · intro offset value rest hvalue hrest
    exact Scan.tokensFrom_quoted offset hvalue hrest
  · intro before tokens value rest htokens hbefore hvalue hrest
    rcases Scan.tokensFrom_eq_ok_iff.mp (placedTokens_eq_ok_iff.mp htokens) with
      ⟨entries, hentries, htiling⟩
    refine ⟨entries, ?_, ?_⟩
    · rw [hentries, Scan.endAt, Nat.zero_add]
    · rw [htiling.tokensFrom_quoted hbefore hvalue hrest, Scan.spanAt, Nat.zero_add,
        Text.byteLength_append]
  · intro cs xs hxs x hx hliteral
    exact existsUnique_value_of_lexemes hxs hx hliteral

/-- The tokens of `x='''é'''x` -/
def crowded : List PlacedToken :=
  [⟨.ident, ⟨0, 1⟩⟩, ⟨.mark .equals, ⟨1, 2⟩⟩, ⟨.literal, ⟨2, 10⟩⟩, ⟨.ident, ⟨10, 11⟩⟩,
    ⟨.endOfInput, ⟨11, 11⟩⟩]

theorem literals_invert_quoting_crowded :
    Scan.OnOneLine ['\'', 'é', '\''] ∧
      Scan.quoted ['\'', 'é', '\''] = "'''é'''".toList ∧
      placedTokens "x='''é'''x".toList = .ok crowded ∧
      ∃! value, Scan.OnOneLine value ∧ "'''é'''".toList = Scan.quoted value := by
  have hvalue : Scan.OnOneLine ['\'', 'é', '\''] := by simp [Scan.OnOneLine]
  have hbefore : placedTokens "x=".toList =
      .ok [⟨.ident, ⟨0, 1⟩⟩, ⟨.mark .equals, ⟨1, 2⟩⟩, ⟨.endOfInput, ⟨2, 2⟩⟩] := by decide +kernel
  have hlexemes : lexemes "'''é'''".toList =
      .ok [⟨.literal, "'''é'''", ⟨0, 8⟩, ⟨1, 1⟩⟩, ⟨.endOfInput, "", ⟨8, 8⟩, ⟨1, 8⟩⟩] := by
    decide +kernel
  have hrest : Scan.tokensFrom 10 ['x'] =
      .ok [⟨.ident, ⟨10, 11⟩⟩, ⟨.endOfInput, ⟨11, 11⟩⟩] := by decide +kernel
  rcases literals_invert_quoting.2.1 _ _ _ ['x'] hbefore (by decide) hvalue (by decide) with
    ⟨entries, hentries, hscan⟩
  have hfound : entries = crowded.take 2 := (List.append_cancel_right hentries).symm
  refine ⟨hvalue, rfl, ?_, ?_⟩
  · apply placedTokens_eq_ok_iff.mpr
    have hlength : Text.byteLength ("x=".toList ++ Scan.quoted ['\'', 'é', '\'']) = 10 := by
      decide +kernel
    rw [hfound, hlength, hrest] at hscan
    exact hscan
  · exact literals_invert_quoting.2.2 _ _ hlexemes _ List.mem_cons_self rfl

end PascalUnit
