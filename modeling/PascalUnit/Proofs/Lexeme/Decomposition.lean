import PascalUnit.Proofs.Lexeme.Spelling

/-!
# Decompositions into lexemes

A row of placed tokens decomposes a source when each token lies over a text of
its kind that is as long as it can be, and only trivia is left between the
tokens.  `Decomposition` says so by byte offsets into the source alone.

The scan works from the front of the remaining text instead.  `Tiling` is the
same notion in that form: it follows the text from one token to the next and
counts the offset along.  The scan is first related to tilings, by the lemmas on
`front`, and tilings are then related to decompositions.
-/

namespace PascalUnit
namespace Scan

/-!
## Steps of the scan
-/

theorem tokensFrom_of_nothing (offset : Nat) :
    tokensFrom offset [] = .ok [⟨.endOfInput, ⟨offset, offset⟩⟩] := by
  rw [tokensFrom]
  rfl

theorem tokensFrom_of_trivia {cs text rest : List Char} (offset : Nat)
    (h : front cs = .trivia text rest) :
    tokensFrom offset cs = tokensFrom (offset + Text.byteLength text) rest := by
  rw [tokensFrom]
  split <;> rename_i heq <;> rw [h] at heq <;> cases heq
  rfl

theorem tokensFrom_of_lexeme {cs text rest : List Char} {token : Token}
    {more : List PlacedToken} (offset : Nat) (h : front cs = .lexeme token text rest)
    (hmore : tokensFrom (offset + Text.byteLength text) rest = .ok more) :
    tokensFrom offset cs = .ok (⟨token, spanAt offset text⟩ :: more) := by
  rw [tokensFrom]
  split <;> rename_i heq <;> rw [h] at heq <;> cases heq
  rw [hmore]

theorem tokensFrom_dropWhile_blank (offset : Nat) (cs : List Char) :
    tokensFrom offset cs =
      tokensFrom (offset + Text.byteLength (cs.takeWhile isBlank)) (cs.dropWhile isBlank) := by
  cases cs with
  | nil => simp
  | cons c cs =>
      by_cases hblank : isBlank c = true
      · exact tokensFrom_of_trivia offset (front_blank hblank)
      · rw [List.takeWhile_cons_of_neg hblank, List.dropWhile_cons_of_neg hblank,
          Text.byteLength_nil, Nat.add_zero]

-- `front` takes all blanks at once, and both sides have dropped the same ones then
theorem tokensFrom_blank {c : Char} (offset : Nat) (cs : List Char) (h : isBlank c = true) :
    tokensFrom offset (c :: cs) = tokensFrom (offset + c.utf8Size) cs := by
  rw [tokensFrom_dropWhile_blank, tokensFrom_dropWhile_blank _ cs,
    List.takeWhile_cons_of_pos h, List.dropWhile_cons_of_pos h, Text.byteLength_cons,
    Nat.add_assoc]

theorem tokensFrom_trivia {gap : List Char} (h : Trivia gap) (offset : Nat)
    (rest : List Char) :
    tokensFrom offset (gap ++ rest) = tokensFrom (offset + Text.byteLength gap) rest := by
  induction h generalizing offset with
  | nil => rfl
  | blank hblank _ ih =>
      rw [List.cons_append, tokensFrom_blank offset _ hblank, ih, Text.byteLength_cons,
        Nat.add_assoc]
  | @braces text gap hclosed _ ih =>
      rw [List.cons_append, List.append_assoc, tokensFrom_of_trivia offset (front_braces hclosed),
        ih, Nat.add_assoc, ← Text.byteLength_append]
      rfl
  | @stars text gap hclosed _ ih =>
      rw [List.cons_append, List.cons_append, List.append_assoc,
        tokensFrom_of_trivia offset (front_stars hclosed), ih, Nat.add_assoc,
        ← Text.byteLength_append]
      rfl

/-!
## Tilings
-/

/-- Tokens laid over a text that begins at `offset`, in order and with trivia between them. -/
inductive Tiling : Nat → List Char → List PlacedToken → Prop where
  | done {offset : Nat} {gap : List Char} : Trivia gap → Tiling offset gap []
  | next {offset : Nat} {gap text rest : List Char} {token : Token}
      {more : List PlacedToken} :
      Trivia gap → Spells token text → EndsBefore token rest →
        Tiling (offset + Text.byteLength gap + Text.byteLength text) rest more →
          Tiling offset (gap ++ (text ++ rest))
            (⟨token, spanAt (offset + Text.byteLength gap) text⟩ :: more)

theorem Tiling.trivia_append {offset : Nat} {gap rest : List Char}
    {entries : List PlacedToken} (hgap : Trivia gap)
    (h : Tiling (offset + Text.byteLength gap) rest entries) :
    Tiling offset (gap ++ rest) entries := by
  generalize hstart : offset + Text.byteLength gap = start at h
  -- the trivia joins the first gap of the tiling
  cases h with
  | done hrest => exact .done (Scan.trivia_append hgap hrest)
  | @next _ gap' text rest _ _ hgap' hspells hends hmore =>
      rw [← List.append_assoc]
      subst hstart
      rw [Nat.add_assoc offset, ← Text.byteLength_append] at hmore ⊢
      exact .next (Scan.trivia_append hgap hgap') hspells hends hmore

def endAt (offset : Nat) (cs : List Char) : PlacedToken :=
  ⟨.endOfInput, ⟨offset + Text.byteLength cs, offset + Text.byteLength cs⟩⟩

theorem endAt_append (offset : Nat) (a b : List Char) :
    endAt offset (a ++ b) = endAt (offset + Text.byteLength a) b := by
  simp [endAt, Nat.add_assoc]

theorem tokensFrom_of_tiling {offset : Nat} {cs : List Char} {entries : List PlacedToken}
    (h : Tiling offset cs entries) :
    tokensFrom offset cs = .ok (entries ++ [endAt offset cs]) := by
  induction h with
  | @done offset gap hgap =>
      have hscan := tokensFrom_trivia hgap offset []
      rw [List.append_nil, tokensFrom_of_nothing] at hscan
      exact hscan
  | @next offset gap text rest token more hgap hspells hends _ ih =>
      rw [tokensFrom_trivia hgap, endAt_append, endAt_append]
      exact tokensFrom_of_lexeme _ (front_eq_lexeme_iff.mpr ⟨rfl, hspells, hends⟩) ih

theorem tiling_of_tokensFrom {offset : Nat} {cs : List Char} {tokens : List PlacedToken}
    (h : tokensFrom offset cs = .ok tokens) :
    ∃ entries, tokens = entries ++ [endAt offset cs] ∧ Tiling offset cs entries := by
  fun_induction tokensFrom offset cs generalizing tokens with
  | case1 offset cs hfront =>
      have hdivides := front_divides cs
      rw [hfront] at hdivides
      cases hdivides
      cases h
      exact ⟨[], rfl, .done .nil⟩
  | case2 offset cs text rest hfront ih =>
      have hdivides := front_divides cs
      rw [hfront] at hdivides
      cases hdivides
      rcases ih h with ⟨entries, htokens, htiling⟩
      rw [endAt_append]
      exact ⟨entries, htokens, htiling.trivia_append (front_trivia hfront)⟩
  | case3 offset cs token text rest hfront more hmore ih =>
      cases h
      rcases front_eq_lexeme_iff.mp hfront with ⟨hcs, hspells, hends⟩
      rcases ih hmore with ⟨entries, htokens, htiling⟩
      rw [hcs, htokens, endAt_append]
      refine ⟨⟨token, spanAt offset text⟩ :: entries, rfl, ?_⟩
      exact @Tiling.next offset [] text rest token entries .nil hspells hends htiling
  | case4 => cases h
  | case5 => cases h

theorem tokensFrom_eq_ok_iff {offset : Nat} {cs : List Char} {tokens : List PlacedToken} :
    tokensFrom offset cs = .ok tokens ↔
      ∃ entries, tokens = entries ++ [endAt offset cs] ∧ Tiling offset cs entries := by
  constructor
  · exact tiling_of_tokensFrom
  · intro h
    rcases h with ⟨entries, rfl, htiling⟩
    exact tokensFrom_of_tiling htiling

end Scan

/-!
## Decompositions
-/

/-- What a row of tokens leaves uncovered of the bytes from `start` to `stop`. -/
def gapSpans (start stop : Nat) : List PlacedToken → List Span
  | [] => [⟨start, stop⟩]
  | x :: more => ⟨start, x.span.start⟩ :: gapSpans x.span.stop stop more

/--
Tokens over the bytes of a source from `start` on.  Every token lies over a text
of its kind, which the text behind it does not continue.
-/
structure DecompositionFrom (cs : List Char) (start : Nat) (entries : List PlacedToken) :
    Prop where
  spelled : ∀ x ∈ entries, x.token ≠ .endOfInput
  nonempty : ∀ x ∈ entries, x.span.start < x.span.stop
  inRange : ∀ x ∈ entries, x.span.stop ≤ Text.byteLength cs
  onBoundaries : ∀ x ∈ entries,
    Text.IsBoundary cs x.span.start ∧ Text.IsBoundary cs x.span.stop
  ordered : entries.Pairwise fun x y => x.span.stop ≤ y.span.start
  gaps : ∀ s ∈ gapSpans start (Text.byteLength cs) entries,
    ∃ text, Text.slice? cs s = some text ∧ Scan.Trivia text
  texts : ∀ x ∈ entries, ∃ text rest,
    Text.slice? cs x.span = some text ∧ Text.dropBytes? x.span.stop cs = some rest ∧
      Scan.Spells x.token text ∧ Scan.EndsBefore x.token rest

def Decomposition (cs : List Char) (entries : List PlacedToken) : Prop :=
  DecompositionFrom cs 0 entries

namespace Scan

theorem Tiling.start_le {offset : Nat} {cs : List Char} {entries : List PlacedToken}
    (h : Tiling offset cs entries) : ∀ x ∈ entries, offset ≤ x.span.start := by
  induction h with
  | done => simp
  | @next offset gap text rest token more _ _ _ _ ih =>
      rw [List.forall_mem_cons]
      refine ⟨Nat.le_add_right _ _, ?_⟩
      intro x hx
      have hle := ih x hx
      omega

end Scan

theorem DecompositionFrom.nil {cs before gap : List Char} (hcs : cs = before ++ gap)
    (hgap : Scan.Trivia gap) : DecompositionFrom cs (Text.byteLength before) [] := by
  have hslice : Text.slice? cs ⟨Text.byteLength before, Text.byteLength cs⟩ = some gap :=
    Text.slice?_eq_some_iff.mpr ⟨before, [], by simp [hcs], rfl, by simp [hcs]⟩
  refine ⟨by simp, by simp, by simp, by simp, .nil, ?_, by simp⟩
  intro s hs
  cases List.mem_singleton.mp hs
  exact ⟨gap, hslice, hgap⟩

theorem DecompositionFrom.cons {cs before gap text rest : List Char} {token : Token}
    {more : List PlacedToken} (hcs : cs = before ++ gap ++ text ++ rest)
    (hgap : Scan.Trivia gap) (hspells : Scan.Spells token text)
    (hends : Scan.EndsBefore token rest)
    (hafter : ∀ x ∈ more, Text.byteLength (before ++ gap ++ text) ≤ x.span.start)
    (h : DecompositionFrom cs (Text.byteLength (before ++ gap ++ text)) more) :
    DecompositionFrom cs (Text.byteLength before)
      (⟨token, Text.byteLength (before ++ gap), Text.byteLength (before ++ gap ++ text)⟩ ::
        more) := by
  have hpos := Text.byteLength_pos (Scan.ne_nil_of_spells hspells)
  have hslice : Text.slice? cs
      ⟨Text.byteLength (before ++ gap), Text.byteLength (before ++ gap ++ text)⟩ = some text :=
    Text.slice?_eq_some_iff.mpr ⟨before ++ gap, rest, by simp [hcs], rfl,
      (Text.byteLength_append _ _).symm⟩
  have hdrop : Text.dropBytes? (Text.byteLength (before ++ gap ++ text)) cs = some rest :=
    Text.dropBytes?_eq_some_iff.mpr ⟨before ++ gap ++ text, hcs, rfl⟩
  have hgapSlice : Text.slice? cs
      ⟨Text.byteLength before, Text.byteLength (before ++ gap)⟩ = some gap :=
    Text.slice?_eq_some_iff.mpr ⟨before, text ++ rest, by simp [hcs], rfl,
      (Text.byteLength_append _ _).symm⟩
  constructor <;> simp only [List.forall_mem_cons, List.pairwise_cons, gapSpans]
  case spelled =>
    refine ⟨?_, h.spelled⟩
    intro hend
    rw [hend] at hspells
    cases hspells
  case nonempty =>
    refine ⟨?_, h.nonempty⟩
    simp only [Text.byteLength_append]
    omega
  case inRange =>
    refine ⟨?_, h.inRange⟩
    rw [hcs, Text.byteLength_append _ rest]
    exact Nat.le_add_right _ _
  case onBoundaries =>
    refine ⟨⟨?_, ?_⟩, h.onBoundaries⟩
    · exact ⟨before ++ gap, text ++ rest, by simp [hcs], rfl⟩
    · exact ⟨before ++ gap ++ text, rest, hcs, rfl⟩
  case ordered => exact ⟨hafter, h.ordered⟩
  case gaps => exact ⟨⟨gap, hgapSlice, hgap⟩, h.gaps⟩
  case texts => exact ⟨⟨text, rest, hslice, hdrop, hspells, hends⟩, h.texts⟩

theorem DecompositionFrom.tail {cs : List Char} {start : Nat} {x : PlacedToken}
    {more : List PlacedToken} (h : DecompositionFrom cs start (x :: more)) :
    DecompositionFrom cs x.span.stop more where
  spelled := (List.forall_mem_cons.mp h.spelled).2
  nonempty := (List.forall_mem_cons.mp h.nonempty).2
  inRange := (List.forall_mem_cons.mp h.inRange).2
  onBoundaries := (List.forall_mem_cons.mp h.onBoundaries).2
  ordered := (List.pairwise_cons.mp h.ordered).2
  gaps := (List.forall_mem_cons.mp h.gaps).2
  texts := (List.forall_mem_cons.mp h.texts).2

theorem decompositionFrom_of_tiling {cs before after : List Char}
    {entries : List PlacedToken} (hcs : cs = before ++ after)
    (h : Scan.Tiling (Text.byteLength before) after entries) :
    DecompositionFrom cs (Text.byteLength before) entries := by
  generalize hstart : Text.byteLength before = start at h
  induction h generalizing before with
  | done hgap =>
      subst hstart
      exact .nil hcs hgap
  | @next _ gap text rest token more hgap hspells hends hmore ih =>
      subst hstart
      have hstart : Text.byteLength (before ++ gap ++ text) =
          Text.byteLength before + Text.byteLength gap + Text.byteLength text := by
        simp only [Text.byteLength_append]
      have hwhole : cs = before ++ gap ++ text ++ rest := by simp [hcs]
      have hspan : Scan.spanAt (Text.byteLength before + Text.byteLength gap) text =
          ⟨Text.byteLength (before ++ gap), Text.byteLength (before ++ gap ++ text)⟩ := by
        simp only [Scan.spanAt, Text.byteLength_append]
      have hafter := hmore.start_le
      rw [← hstart] at hafter
      rw [hspan]
      refine .cons hwhole hgap hspells hends hafter ?_
      rw [hstart]
      exact ih hwhole hstart

theorem tiling_of_decompositionFrom {cs before after : List Char}
    {entries : List PlacedToken} (hcs : cs = before ++ after)
    (h : DecompositionFrom cs (Text.byteLength before) entries) :
    Scan.Tiling (Text.byteLength before) after entries := by
  induction entries generalizing before after with
  | nil =>
      rcases h.gaps _ (List.mem_singleton.mpr rfl) with ⟨gap, hslice, hgap⟩
      have hall : Text.slice? cs ⟨Text.byteLength before, Text.byteLength cs⟩ = some after :=
        Text.slice?_eq_some_iff.mpr ⟨before, [], by simp [hcs], rfl, by simp [hcs]⟩
      rw [hall] at hslice
      cases hslice
      exact .done hgap
  | cons x more ih =>
      rcases h.gaps _ List.mem_cons_self with ⟨gap, hgapSlice, hgap⟩
      rcases h.texts _ List.mem_cons_self with ⟨text, rest, hslice, hdrop, hspells, hends⟩
      have hmore := h.tail
      rcases x with ⟨token, start, stop⟩
      -- the gap continues what stands before it, and the token continues the gap
      rw [hcs] at hgapSlice
      rcases Text.slice?_after hgapSlice with ⟨after, rfl, rfl⟩
      rw [← List.append_assoc] at hcs
      rw [hcs] at hslice
      rcases Text.slice?_after hslice with ⟨after, rfl, rfl⟩
      rw [← List.append_assoc] at hcs
      -- so `rest` is what the scan finds behind the token
      rw [hcs, Text.dropBytes?_append] at hdrop
      cases hdrop
      have htiling := ih hcs hmore
      simp only [Text.byteLength_append] at htiling ⊢
      exact .next hgap hspells hends htiling

theorem decomposition_iff_tiling {cs : List Char} {entries : List PlacedToken} :
    Decomposition cs entries ↔ Scan.Tiling 0 cs entries := by
  constructor
  · intro h
    exact tiling_of_decompositionFrom (List.nil_append cs).symm h
  · intro h
    exact decompositionFrom_of_tiling (List.nil_append cs).symm h

theorem placedTokens_eq_ok_iff {cs : List Char} {tokens : List PlacedToken} :
    placedTokens cs = .ok tokens ↔ Scan.tokensFrom 0 cs = .ok tokens := by
  unfold placedTokens
  split <;> rename_i heq <;> rw [heq] <;> simp

/--
A scan succeeds with a row of tokens exactly when the row, but for the end of
input that closes it, decomposes the source.
-/
theorem placedTokens_decompose_exactly (cs : List Char) (tokens : List PlacedToken) :
    placedTokens cs = .ok tokens ↔
      ∃ entries, Decomposition cs entries ∧
        tokens = entries ++
          [⟨.endOfInput, ⟨Text.byteLength cs, Text.byteLength cs⟩⟩] := by
  rw [placedTokens_eq_ok_iff, Scan.tokensFrom_eq_ok_iff]
  constructor
  · intro h
    rcases h with ⟨entries, htokens, htiling⟩
    refine ⟨entries, decomposition_iff_tiling.mpr htiling, ?_⟩
    rw [htokens, Scan.endAt, Nat.zero_add]
  · intro h
    rcases h with ⟨entries, hdecomposition, htokens⟩
    refine ⟨entries, ?_, decomposition_iff_tiling.mp hdecomposition⟩
    rw [htokens, Scan.endAt, Nat.zero_add]

end PascalUnit
