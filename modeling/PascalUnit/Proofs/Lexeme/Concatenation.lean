import PascalUnit.Proofs.Lexeme.Respelling

/-!
# Lexemes of texts behind each other

A scan never looks back: what it finds in a text that begins later differs from
what it finds in the same text only by the offset.  It looks ahead by one
character at most, to see whether a token is continued.  So where a text ends with
a blank, or the text behind it begins with something that continues no token, the
two are scanned as if each stood alone.
-/

namespace PascalUnit

def Span.shift (n : Nat) (s : Span) : Span :=
  ⟨n + s.start, n + s.stop⟩

def PlacedToken.shift (n : Nat) (x : PlacedToken) : PlacedToken :=
  ⟨x.token, x.span.shift n⟩

namespace Scan

/-- The outcome of a scan when `n` bytes are put in front of the text. -/
def shifted (n : Nat) :
    Except (LexFault × Span) (List PlacedToken) → Except (LexFault × Span) (List PlacedToken)
  | .ok tokens => .ok (tokens.map (PlacedToken.shift n))
  | .error (fault, span) => .error (fault, span.shift n)

/-!
## Texts that begin later
-/

theorem spanAt_add (n offset : Nat) (text : List Char) :
    spanAt (n + offset) text = (spanAt offset text).shift n := by
  rw [spanAt, spanAt, Span.shift, Nat.add_assoc]

theorem tokensFrom_lexeme {cs text rest : List Char} {token : Token} (offset : Nat)
    (h : front cs = .lexeme token text rest) :
    tokensFrom offset cs =
      (tokensFrom (offset + Text.byteLength text) rest).map
        (⟨token, spanAt offset text⟩ :: ·) := by
  rw [tokensFrom]
  split <;> rename_i heq <;> rw [h] at heq <;> cases heq
  cases tokensFrom (offset + Text.byteLength text) rest with
  | error e => rfl
  | ok more => rfl

theorem tokensFrom_fault {cs text : List Char} {fault : LexFault} (offset : Nat)
    (h : front cs = .fault fault text) :
    tokensFrom offset cs = .error (fault, spanAt offset text) := by
  rw [tokensFrom]
  split <;> rename_i heq <;> rw [h] at heq <;> cases heq
  rfl

/-- The offset of a text moves everything that is found in it. -/
theorem tokensFrom_add (n offset : Nat) (cs : List Char) :
    tokensFrom (n + offset) cs = shifted n (tokensFrom offset cs) := by
  fun_induction tokensFrom offset cs with
  | case1 offset cs hfront =>
      have hdivides := front_divides cs
      rw [hfront] at hdivides
      cases hdivides
      rw [tokensFrom_of_nothing]
      rfl
  | case2 offset cs text rest hfront ih =>
      rw [tokensFrom_of_trivia _ hfront, Nat.add_assoc, ih]
  | case3 offset cs token text rest hfront more hmore ih =>
      rw [tokensFrom_lexeme _ hfront, Nat.add_assoc, ih, hmore, spanAt_add]
      rfl
  | case4 offset cs token text rest hfront e herror ih =>
      rw [tokensFrom_lexeme _ hfront, Nat.add_assoc, ih, herror]
      rfl
  | case5 offset cs fault text hfront =>
      rw [tokensFrom_fault _ hfront, spanAt_add]
      rfl

/-!
## Where two texts meet
-/

theorem endsBefore_congr {token : Token} {rest rest' : List Char}
    (h : rest.head? = rest'.head?) : EndsBefore token rest ↔ EndsBefore token rest' := by
  cases token with
  | mark m => rw [endsBefore_mark_iff, endsBefore_mark_iff, h]
  | keyword | builtin | ident | number | literal | comment | endOfInput =>
      simp only [EndsBefore, h]

theorem endsBefore_append {token : Token} {rest more : List Char}
    (h : EndsBefore token rest) (hnil : rest = [] → EndsBefore token more) :
    EndsBefore token (rest ++ more) := by
  cases rest with
  | nil => exact hnil rfl
  | cons c rest =>
      have hhead : (c :: rest).head? = (c :: rest ++ more).head? := rfl
      exact (endsBefore_congr hhead).mp h

theorem isBlank_eq_false_of_class {p : Char → Bool} {c : Char} (hc : p c = true)
    (h : ∀ d, isBlank d = true → p d = false) : isBlank c = false := by
  rw [Bool.eq_false_iff]
  intro hblank
  rw [h c hblank] at hc
  cases hc

theorem isNamePart_of_isBlank {c : Char} (h : isBlank c = true) :
    Text.isNamePart c = false := by
  simp only [isBlank, Bool.or_eq_true, decide_eq_true_eq] at h
  rcases h with (((rfl | rfl) | rfl) | rfl) | rfl <;> decide

theorem not_blank_of_spells {token : Token} {text : List Char} (h : Spells token text)
    {c : Char} (hc : c ∈ text.getLast?) : isBlank c = false := by
  have hword (hkind : IsWordKind token) : isBlank c = false := by
    have hname := (wordToken_of_spells hkind h).1
    have hpart := isNamePart_of_isName hname c (List.mem_of_mem_getLast? hc)
    exact isBlank_eq_false_of_class hpart fun d => isNamePart_of_isBlank
  cases token with
  | keyword | builtin | ident => exact hword trivial
  | number =>
      have hdigit := h.2 c (List.mem_of_mem_getLast? hc)
      exact isBlank_eq_false_of_class hdigit fun d hd => (isNameStart_of_isBlank hd).2
  | literal =>
      rcases h with ⟨value, _, rfl⟩
      rw [quoted, ← List.cons_append, List.getLast?_concat, Option.mem_some_iff] at hc
      rw [← hc]
      rfl
  | mark m =>
      cases h
      cases m <;> cases hc <;> rfl
  | comment | endOfInput => cases h

/--
Two texts that are scanned each on its own: the second begins with what continues no
token, or the first ends with a blank.
-/
def Separated (a b : List Char) : Prop :=
  (∀ token, EndsBefore token b) ∨ ∃ c ∈ a.getLast?, isBlank c = true

theorem separated_trivia (a : List Char) {gap : List Char} (h : Trivia gap) (hne : gap ≠ [])
    (rest : List Char) : Separated a (gap ++ rest) :=
  Or.inl fun token => endsBefore_trivia h hne token rest

theorem Separated.endsBefore {a b text : List Char} {token : Token} (h : Separated a b)
    (hspells : Spells token text) (hsuffix : text <:+ a) : EndsBefore token b := by
  rcases h with hb | ⟨c, hc, hblank⟩
  · exact hb token
  -- the blank would be the last character of the token
  · rcases hsuffix with ⟨before, rfl⟩
    rw [List.getLast?_append_of_ne_nil _ (ne_nil_of_spells hspells)] at hc
    rw [not_blank_of_spells hspells hc] at hblank
    cases hblank

theorem Tiling.tokensFrom_append {offset : Nat} {a b : List Char} {entries : List PlacedToken}
    (h : Tiling offset a entries)
    (hends : ∀ {token : Token} {text : List Char},
      Spells token text → text <:+ a → EndsBefore token b) :
    tokensFrom offset (a ++ b) =
      (tokensFrom (offset + Text.byteLength a) b).map (entries ++ ·) := by
  induction h with
  | @done offset gap hgap =>
      rw [tokensFrom_trivia hgap]
      cases tokensFrom (offset + Text.byteLength gap) b with
      | error e => rfl
      | ok tokens => rfl
  | @next offset gap text rest token more hgap hspells hrest _ ih =>
      have hfront : front (text ++ (rest ++ b)) = .lexeme token text (rest ++ b) := by
        refine front_eq_lexeme_iff.mpr ⟨rfl, hspells, endsBefore_append hrest ?_⟩
        intro hnil
        exact hends hspells ⟨gap, by rw [hnil, List.append_nil]⟩
      have hmore := ih fun hspells' hsuffix =>
        hends hspells' (hsuffix.trans ⟨gap ++ text, List.append_assoc _ _ _⟩)
      have hstart : offset + Text.byteLength (gap ++ (text ++ rest)) =
          offset + Text.byteLength gap + Text.byteLength text + Text.byteLength rest := by
        simp only [Text.byteLength_append, Nat.add_assoc]
      rw [List.append_assoc, List.append_assoc, tokensFrom_trivia hgap,
        tokensFrom_lexeme _ hfront, hmore, hstart]
      cases tokensFrom (offset + Text.byteLength gap + Text.byteLength text +
        Text.byteLength rest) b with
      | error e => rfl
      | ok tokens => rfl

end Scan

/-!
## Sources
-/

theorem placedTokens_eq_error_iff {cs : List Char} {e : LexError} :
    placedTokens cs = .error e ↔
      Scan.tokensFrom 0 cs = .error (e.fault, e.span) ∧
        e.position = Position.ofOffset cs e.span.start := by
  rcases e with ⟨fault, span, position⟩
  unfold placedTokens
  cases Scan.tokensFrom 0 cs with
  | ok tokens => simp
  | error fault' =>
      rcases fault' with ⟨fault', span'⟩
      simp only [Except.error.injEq, LexError.mk.injEq, Prod.mk.injEq]
      constructor
      · intro h
        rcases h with ⟨rfl, rfl, rfl⟩
        exact ⟨⟨rfl, rfl⟩, rfl⟩
      · intro h
        rcases h with ⟨⟨rfl, rfl⟩, rfl⟩
        exact ⟨rfl, rfl, rfl⟩

/-- Behind a text that can be divided into lexemes, and trivia, a scan goes on as at the start. -/
theorem tokensFrom_zero_append {a gap b : List Char} {tokens : List PlacedToken}
    (h : placedTokens a = .ok tokens) (hgap : Scan.Trivia gap)
    (hseparated : Scan.Separated a (gap ++ b)) :
    ∃ entries, tokens = entries ++ [Scan.endAt 0 a] ∧
      Scan.tokensFrom 0 (a ++ (gap ++ b)) =
        (Scan.shifted (Text.byteLength (a ++ gap)) (Scan.tokensFrom 0 b)).map (entries ++ ·) := by
  rcases Scan.tokensFrom_eq_ok_iff.mp (placedTokens_eq_ok_iff.mp h) with
    ⟨entries, htokens, htiling⟩
  refine ⟨entries, htokens, ?_⟩
  rw [htiling.tokensFrom_append hseparated.endsBefore, Scan.tokensFrom_trivia hgap, Nat.zero_add,
    ← Text.byteLength_append, ← Scan.tokensFrom_add, Nat.add_zero]

/--
Texts with trivia between them are divided into lexemes one after the other: the
second text adds its tokens, or its fault, with every span moved behind the first
text and the trivia.
-/
theorem placedTokens_append_trivia {a gap : List Char} {tokens : List PlacedToken}
    (ha : placedTokens a = .ok tokens) (hgap : Scan.Trivia gap) (hne : gap ≠ [])
    (b : List Char) :
    ∃ entries, tokens = entries ++ [⟨.endOfInput, ⟨Text.byteLength a, Text.byteLength a⟩⟩] ∧
      (∀ more, placedTokens b = .ok more →
        placedTokens (a ++ (gap ++ b)) =
          .ok (entries ++ more.map (PlacedToken.shift (Text.byteLength (a ++ gap))))) ∧
      ∀ e, placedTokens b = .error e →
        placedTokens (a ++ (gap ++ b)) =
          .error ⟨e.fault, e.span.shift (Text.byteLength (a ++ gap)),
            Position.ofOffset (a ++ (gap ++ b)) (Text.byteLength (a ++ gap) + e.span.start)⟩ := by
  rcases tokensFrom_zero_append ha hgap (Scan.separated_trivia a hgap hne b) with
    ⟨entries, htokens, hscan⟩
  refine ⟨entries, ?_, ?_, ?_⟩
  · rw [htokens, Scan.endAt, Nat.zero_add]
  · intro more hmore
    rw [placedTokens_eq_ok_iff] at hmore ⊢
    rw [hscan, hmore]
    rfl
  · intro e he
    rcases placedTokens_eq_error_iff.mp he with ⟨hfault, _⟩
    rw [hfault] at hscan
    exact placedTokens_eq_error_iff.mpr ⟨hscan, rfl⟩

/-- The tokens of `a.` -/
def dotted : List PlacedToken :=
  [⟨.ident, ⟨0, 1⟩⟩, ⟨.mark .period, ⟨1, 2⟩⟩, ⟨.endOfInput, ⟨2, 2⟩⟩]

theorem placedTokens_append_trivia_dotted :
    placedTokens "a.".toList = .ok dotted ∧ Scan.Trivia "(*.*)".toList ∧
      placedTokens "a.(*.*).".toList =
        .ok [⟨.ident, ⟨0, 1⟩⟩, ⟨.mark .period, ⟨1, 2⟩⟩, ⟨.mark .period, ⟨7, 8⟩⟩,
          ⟨.endOfInput, ⟨8, 8⟩⟩] ∧
      placedTokens "a.(*.*)*)".toList =
        .error ⟨.strayCharacter '*', ⟨7, 8⟩, ⟨1, 8⟩⟩ := by
  have ha : placedTokens "a.".toList = .ok dotted := by decide +kernel
  have hgap : Scan.Trivia "(*.*)".toList :=
    @Scan.Trivia.stars ['.', '*', ')'] [] (by unfold Scan.ClosedBy; decide) .nil
  have hpoint : placedTokens ".".toList =
      .ok [⟨.mark .period, ⟨0, 1⟩⟩, ⟨.endOfInput, ⟨1, 1⟩⟩] := by decide +kernel
  have hstar : placedTokens "*)".toList =
      .error ⟨.strayCharacter '*', ⟨0, 1⟩, ⟨1, 1⟩⟩ := by decide +kernel
  rcases placedTokens_append_trivia ha hgap (by decide) ".".toList with ⟨entries, heq, hok, _⟩
  rcases placedTokens_append_trivia ha hgap (by decide) "*)".toList with ⟨_, _, _, herror⟩
  have hentries : entries = dotted.dropLast := by rw [heq, List.dropLast_concat]
  refine ⟨ha, hgap, ?_, ?_⟩
  · have hjoined := hok _ hpoint
    rw [hentries] at hjoined
    exact hjoined
  · exact (herror _ hstar).trans (by decide +kernel)

end PascalUnit
