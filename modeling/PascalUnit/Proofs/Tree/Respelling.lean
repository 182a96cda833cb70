import PascalUnit.Proofs.Grammar.Placement
import PascalUnit.Proofs.Lexeme.Respelling
import PascalUnit.Proofs.Tree.Reprint
import PascalUnit.Proofs.Tree.SyntaxErrors

/-!
# Spelling does not change the unit

Letter case of keywords, blanks and comments carry no meaning.  A source whose
lexemes are written again has lexemes of the same kinds and is judged as before:
it has the same tree, or it is refused at the same lexeme for the same reason.
-/

namespace PascalUnit

namespace Lexeme

def terminal (x : Lexeme) : Terminal :=
  ⟨x.token, x.token.spelling?.getD x.text⟩

/-- Lexemes of one kind; letter case is the only difference between their texts. -/
structure Agrees (x y : Lexeme) : Prop where
  token : y.token = x.token
  text : x.token.isKeyword = false → y.text = x.text

end Lexeme

theorem PlacedToken.terminal_toLexeme (table : LineTable) (cs : List Char) (x : PlacedToken) :
    (x.toLexeme table cs).terminal = x.terminal (leafText cs) := by
  rw [Lexeme.terminal, PlacedToken.terminal, leafText]
  cases hfixed : x.token.spelling? with
  | none => simp [toLexeme, hfixed]
  | some text => simp [toLexeme, hfixed]

namespace Lexeme.StandsUnder

variable {source : List Char} {x : Lexeme} {y : PlacedToken}

theorem agrees (h : StandsUnder source x y) (table : LineTable) :
    x.Agrees (y.toLexeme table source) := by
  refine ⟨h.token, ?_⟩
  intro hkeyword
  rcases h.respelt with ⟨text, hslice, hrespelt⟩
  rw [RespeltBy, hkeyword] at hrespelt
  have htext : text = x.text.toList := hrespelt
  show y.sourceText source = x.text
  rw [PlacedToken.sourceText, hslice, htext]
  exact String.ofList_toList

end Lexeme.StandsUnder

theorem Lexeme.Agrees.terminal {x y : Lexeme} (h : x.Agrees y) : y.terminal = x.terminal := by
  rw [Lexeme.terminal, Lexeme.terminal, h.token]
  cases hkeyword : x.token.isKeyword with
  | false => rw [h.text hkeyword]
  | true =>
      cases htoken : x.token with
      | keyword k => rfl
      | builtin | ident | number | literal | comment | mark | endOfInput =>
          rw [htoken] at hkeyword
          cases hkeyword

theorem map_eq_of_agrees {β : Type} {common : Lexeme → β}
    (hcommon : ∀ {x y : Lexeme}, x.Agrees y → common y = common x) {xs ys : List Lexeme}
    (h : List.Forall₂ Lexeme.Agrees xs ys) : ys.map common = xs.map common := by
  induction h with
  | nil => rfl
  | cons hxy _ ih => rw [List.map_cons, List.map_cons, hcommon hxy, ih]

theorem agrees_end (cs cs' : List Char) :
    ((Scan.endAt 0 cs).toLexeme (LineTable.ofText cs) cs).Agrees
      ((Scan.endAt 0 cs').toLexeme (LineTable.ofText cs') cs') := by
  have hempty : ∀ source : List Char, (Scan.endAt 0 source).sourceText source = "" := by
    intro source
    have hslice : Text.slice? source (Scan.endAt 0 source).span = some [] :=
      Text.slice?_eq_some_iff.mpr ⟨source, [], by simp, by simp [Scan.endAt], by simp [Scan.endAt]⟩
    rw [PlacedToken.sourceText, hslice]
  refine ⟨rfl, ?_⟩
  intro _
  exact (hempty cs').trans (hempty cs).symm

theorem Respelled.exists_lexemes {cs cs' : List Char} {entries : List PlacedToken}
    (h : Scan.Tiling 0 cs entries)
    (hrespelled : Respelled false
      (entries.map (PlacedToken.toLexeme (LineTable.ofText cs) cs)) cs') :
    ∃ entries', Scan.Tiling 0 cs' entries' ∧
      List.Forall₂ Lexeme.Agrees
        (entries.map (PlacedToken.toLexeme (LineTable.ofText cs) cs))
        (entries'.map (PlacedToken.toLexeme (LineTable.ofText cs') cs')) := by
  rcases hrespelled.exists_tiling (h.spells_toLexeme _) (List.nil_append cs').symm with
    ⟨entries', htiling, hunder⟩
  refine ⟨entries', htiling, List.forall₂_map_right_iff.mpr ?_⟩
  exact hunder.imp fun _ _ hxy => hxy.agrees _

/-!
## Diagnostics by lexeme
-/

def SyntaxError.IsAbout (e : SyntaxError) (ls : List Lexeme) (i : Nat) : Prop :=
  ∃ x, ls[i]? = some x ∧ e.found = x.token ∧ e.span = x.span ∧ e.position = x.position

/--
Two sources with lexemes `ls` and `ls'` are judged alike: they have the same tree, or
they are refused at the same lexeme, of one kind and for want of the same tokens.
-/
inductive JudgedAlike (ls ls' : List Lexeme) :
    Except ParseError Tree → Except ParseError Tree → Prop where
  | accepted (t : Tree) : JudgedAlike ls ls' (.ok t) (.ok t)
  | refused {e e' : SyntaxError} (i : Nat) :
      e'.found = e.found → e'.expected = e.expected →
        (∀ j, e.IsAbout ls j ↔ j = i) → (∀ j, e'.IsAbout ls' j ↔ j = i) →
          JudgedAlike ls ls' (.error (.structural e)) (.error (.structural e'))

namespace Scan.Tiling

variable {cs : List Char} {entries : List PlacedToken}

theorem significant_eq (h : Tiling 0 cs entries) :
    significant (entries ++ [endAt 0 cs]) = entries :=
  significant_of_decomposition (decomposition_iff_tiling.mpr h) _

theorem parse_eq (h : Tiling 0 cs entries) :
    Tree.parse cs =
      match Grammar.readGoal (PlacedToken.leafText cs) entries with
      | .ok t => .ok t
      | .error s => .error (.structural (SyntaxError.ofStall cs entries s)) := by
  rw [Tree.parse, placedTokens_eq_ok_iff.mpr (tokensFrom_of_tiling h)]
  simp only [Tree.ofTokens, h.significant_eq]
  cases Grammar.readGoal (PlacedToken.leafText cs) entries with
  | ok t => rfl
  | error s => rfl

theorem isAbout_iff (h : Tiling 0 cs entries) {s : Stall} (hplace : s.place ≤ entries.length)
    (j : Nat) :
    (SyntaxError.ofStall cs entries s).IsAbout
        ((entries ++ [endAt 0 cs]).map (PlacedToken.toLexeme (LineTable.ofText cs) cs)) j ↔
      j = s.place := by
  generalize he : SyntaxError.ofStall cs entries s = e
  have hfound : (entries ++ [endAt 0 cs])[s.place]? = some ⟨e.found, e.span⟩ := by
    rw [← he]
    rcases Nat.lt_or_eq_of_le hplace with hlt | heq
    · rw [List.getElem?_append_left hlt, List.getElem?_eq_getElem hlt]
      simp [SyntaxError.ofStall, hlt]
    · simp [SyntaxError.ofStall, heq, endAt]
  have hposition : e.position = Position.ofOffset cs e.span.start := by
    rw [← he]
    rfl
  constructor
  · intro habout
    rcases habout with ⟨x, hx, _, hspan, _⟩
    rw [List.getElem?_map] at hx
    rcases Option.map_eq_some_iff.mp hx with ⟨y, hy, rfl⟩
    rcases List.getElem?_eq_some_iff.mp hfound with ⟨hlt, hat⟩
    rcases List.getElem?_eq_some_iff.mp hy with ⟨hlt', hat'⟩
    have hstart : (entries ++ [endAt 0 cs])[s.place].span.start =
        (entries ++ [endAt 0 cs])[j].span.start := by
      rw [hat, hat', hspan]
      rfl
    -- starts increase along the row, so two lexemes with one start are the same
    have hincrease := List.pairwise_iff_getElem.mp h.starts_increase
    rcases Nat.lt_trichotomy j s.place with hless | heq | hmore
    · have hbefore := hincrease j s.place hlt' hlt hless
      omega
    · exact heq
    · have hbefore := hincrease s.place j hlt hlt' hmore
      omega
  · intro hj
    refine ⟨PlacedToken.toLexeme (LineTable.ofText cs) cs ⟨e.found, e.span⟩, ?_, rfl, rfl,
      hposition⟩
    rw [hj, List.getElem?_map, hfound, Option.map_some]

end Scan.Tiling

/-!
## Sources written again
-/

namespace Tree

open Grammar

/--
Letter case of keywords, blanks and comments do not matter: a source whose lexemes
are written again has lexemes that agree with them and is judged alike.
-/
theorem parse_respelled {cs cs' : List Char} {ls : List Lexeme} (h : lexemes cs = .ok ls)
    (hrespelled : Respelled false ls.dropLast cs') :
    ∃ ls', lexemes cs' = .ok ls' ∧ List.Forall₂ Lexeme.Agrees ls ls' ∧
      JudgedAlike ls ls' (parse cs) (parse cs') := by
  rcases lexemes_eq_ok_iff.mp h with ⟨entries, htiling, rfl⟩
  rw [List.map_append, List.map_singleton, List.dropLast_concat] at hrespelled
  rcases hrespelled.exists_lexemes htiling with ⟨entries', htiling', hagree⟩
  have hagreeEnd : List.Forall₂ Lexeme.Agrees
      ((entries ++ [Scan.endAt 0 cs]).map (PlacedToken.toLexeme (LineTable.ofText cs) cs))
      ((entries' ++ [Scan.endAt 0 cs']).map (PlacedToken.toLexeme (LineTable.ofText cs') cs')) := by
    rw [List.map_append, List.map_append]
    exact List.rel_append hagree (.cons (agrees_end cs cs') .nil)
  refine ⟨_, lexemes_eq_ok_iff.mpr ⟨entries', htiling', rfl⟩, hagreeEnd, ?_⟩
  -- the rows have the same terminals, so they are read alike
  have hterminals : entries.map (PlacedToken.terminal (PlacedToken.leafText cs)) =
      entries'.map (PlacedToken.terminal (PlacedToken.leafText cs')) := by
    have hcommon := map_eq_of_agrees Lexeme.Agrees.terminal hagree
    simp only [List.map_map, Function.comp_def, PlacedToken.terminal_toLexeme] at hcommon
    exact hcommon.symm
  rw [htiling.parse_eq, htiling'.parse_eq, ← readGoal_eq_of_terminals hterminals]
  cases hread : readGoal (PlacedToken.leafText cs) entries with
  | ok t => exact .accepted t
  | error s =>
      have hread' := (readGoal_eq_of_terminals hterminals).symm.trans hread
      have hsignificant := @significant_ne_endOfInput (entries ++ [Scan.endAt 0 cs])
      have hsignificant' := @significant_ne_endOfInput (entries' ++ [Scan.endAt 0 cs'])
      rw [htiling.significant_eq] at hsignificant
      rw [htiling'.significant_eq] at hsignificant'
      have habout := htiling.isAbout_iff (furthest_of_error hsignificant hread).1
      have habout' := htiling'.isAbout_iff (furthest_of_error hsignificant' hread').1
      refine .refused s.place ?_ rfl habout habout'
      rcases (habout s.place).mpr rfl with ⟨x, hx, hfound, _⟩
      rcases (habout' s.place).mpr rfl with ⟨x', hx', hfound', _⟩
      have hkinds := congrArg (·[s.place]?) (map_eq_of_agrees Lexeme.Agrees.token hagreeEnd)
      simp only [List.getElem?_map (f := Lexeme.token), hx, hx', Option.map_some,
        Option.some.injEq] at hkinds
      rw [hfound, hfound', hkinds]

/-- The lexemes of `unit a;.` -/
def shortest : List Lexeme :=
  [⟨.keyword .unit, "unit", ⟨0, 4⟩, ⟨1, 1⟩⟩, ⟨.ident, "a", ⟨5, 6⟩, ⟨1, 6⟩⟩,
    ⟨.mark .semicolon, ";", ⟨6, 7⟩, ⟨1, 7⟩⟩, ⟨.mark .period, ".", ⟨7, 8⟩, ⟨1, 8⟩⟩,
    ⟨.endOfInput, "", ⟨8, 8⟩, ⟨1, 9⟩⟩]

theorem parse_respelled_shortest :
    lexemes "unit a;.".toList = .ok shortest ∧
      Respelled false shortest.dropLast "\x7ba\x7dUniT(*;*)a ;\n.".toList ∧
      ∃ ls', lexemes "\x7ba\x7dUniT(*;*)a ;\n.".toList = .ok ls' ∧
        List.Forall₂ Lexeme.Agrees shortest ls' ∧
          JudgedAlike shortest ls' (parse "unit a;.".toList)
            (parse "\x7ba\x7dUniT(*;*)a ;\n.".toList) := by
  have hlexemes : lexemes "unit a;.".toList = .ok shortest := by decide +kernel
  have hbraces : Scan.Trivia ['\x7b', 'a', '\x7d'] :=
    @Scan.Trivia.braces ['a', '\x7d'] [] (by unfold Scan.ClosedBy; decide) .nil
  have hstars : Scan.Trivia ['(', '*', ';', '*', ')'] :=
    @Scan.Trivia.stars [';', '*', ')'] [] (by unfold Scan.ClosedBy; decide) .nil
  have hrespelled : Respelled false shortest.dropLast "\x7ba\x7dUniT(*;*)a ;\n.".toList := by
    show Respelled false shortest.dropLast
      (['\x7b', 'a', '\x7d'] ++ (['U', 'n', 'i', 'T'] ++ (['(', '*', ';', '*', ')'] ++ (['a'] ++
        ([' '] ++ ([';'] ++ (['\n'] ++ (['.'] ++ []))))))))
    refine .next hbraces (by simp) rfl ?_
    refine .next hstars (by simp) rfl ?_
    refine .next (.blank rfl .nil) (by simp) rfl ?_
    refine .next (.blank rfl .nil) (by simp) rfl ?_
    exact .done .nil
  exact ⟨hlexemes, hrespelled, parse_respelled hlexemes hrespelled⟩

end Tree
end PascalUnit
