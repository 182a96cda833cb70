import PascalUnit.Proofs.Lexeme.Concatenation

/-!
# Lexical faults

A text cannot be divided into lexemes where a character stands that begins nothing,
or where a literal or a comment is opened and never closed.  `FaultAt` says what
that means without reference to a scan.  A scan reports the first place of this
kind: the text before it can be divided, and the fault covers the character or the
opening alone, however far the scan had to look for the end.
-/

namespace PascalUnit
namespace Scan

/-!
## Texts that are not closed
-/

theorem splitAfter?_eq_none_iff {close cs : List Char} (hclose : close ≠ []) :
    splitAfter? close cs = none ↔ ¬ close <:+: cs := by
  induction cs with
  | nil => simp [splitAfter?, hclose]
  | cons c cs ih =>
      rw [splitAfter?, List.infix_cons_iff]
      by_cases hfront : close <+: c :: cs
      · simp [hfront]
      · simp [hfront, ih]

def firstLine (cs : List Char) : List Char :=
  cs.takeWhile fun c => decide (c ≠ '\r' ∧ c ≠ '\n')

/-- A quote is left over when the quotes before it have been taken in pairs. -/
def HasClosingQuote (line : List Char) : Prop :=
  ∃ value rest, line = doubled value ++ '\'' :: rest ∧ rest.head? ≠ some '\''

theorem mem_doubled {c : Char} {value : List Char} : c ∈ doubled value ↔ c ∈ value := by
  induction value with
  | nil => simp [doubled]
  | cons d value ih =>
      rw [doubled_cons, List.mem_append, List.mem_cons, ih]
      by_cases hquote : d = '\'' <;> simp [hquote]

/-- A literal is closed by a quote of its own line. -/
theorem exists_literalTail?_iff {cs : List Char} :
    (∃ text rest, literalTail? cs = some (text, rest)) ↔ HasClosingQuote (firstLine cs) := by
  constructor
  · intro h
    rcases h with ⟨text, rest, htail⟩
    have hcs := literalTail?_append htail
    rcases exists_value_of_literalTail? htail with ⟨hrest, value, hvalue, rfl⟩
    refine ⟨value, firstLine rest, ?_, ?_⟩
    · rw [← hcs, List.append_assoc, firstLine, List.takeWhile_append_of_pos]
      · rfl
      · intro c hc
        exact decide_eq_true (hvalue c (mem_doubled.mp hc))
    · intro hhead
      apply hrest
      rw [List.head?_eq_some_iff] at hhead ⊢
      rcases hhead with ⟨line, hline⟩
      have hprefix : firstLine rest <+: rest := List.takeWhile_prefix _
      rcases hprefix with ⟨after, hafter⟩
      rw [hline] at hafter
      exact ⟨line ++ after, hafter.symm⟩
  · intro h
    rcases h with ⟨value, rest, hline, hrest⟩
    generalize hafter : cs.dropWhile (fun c => decide (c ≠ '\r' ∧ c ≠ '\n')) = after
    have hcs : cs = doubled value ++ '\'' :: (rest ++ after) := by
      rw [← List.cons_append, ← List.append_assoc, ← hline, ← hafter]
      exact List.takeWhile_append_dropWhile.symm
    have hvalue : OnOneLine value := by
      intro c hc
      have hmem : c ∈ firstLine cs := by
        rw [hline]
        exact List.mem_append_left _ (mem_doubled.mpr hc)
      have hkept := List.mem_takeWhile_imp hmem
      exact of_decide_eq_true hkept
    -- behind the line stands a line break, if anything
    have hnext : (rest ++ after).head? ≠ some '\'' := by
      cases rest with
      | cons c rest => exact hrest
      | nil =>
          intro hhead
          rw [← hafter] at hhead
          have hbreak := head?_dropWhile_ends _ cs _ hhead
          cases hbreak
    rw [hcs]
    exact ⟨_, _, literalTail?_doubled hvalue hnext⟩

theorem literalTail?_eq_none_iff {cs : List Char} :
    literalTail? cs = none ↔ ¬ HasClosingQuote (firstLine cs) := by
  rw [← exists_literalTail?_iff]
  cases literalTail? cs with
  | none => simp
  | some tail => simp [Prod.exists.symm]

/-!
## Characters that begin nothing
-/

/-- No lexeme, blank or comment begins with a character. -/
structure StartsNothing (c : Char) : Prop where
  lexeme : ∀ token text, Spells token text → text.head? ≠ some c
  trivia : ∀ text, Trivia text → text.head? ≠ some c

theorem mark?_point_ne_none (cs : List Char) : mark? ('.' :: cs) ≠ none := by
  by_cases hnext : cs.head? = some '.'
  · rcases List.head?_eq_some_iff.mp hnext with ⟨rest, rfl⟩
    exact Option.some_ne_none _
  · have hperiod : mark? ('.' :: cs) = some .period :=
      mark?_eq_some_iff.mpr ⟨cs, rfl, fun _ => hnext⟩
    rw [hperiod]
    exact Option.some_ne_none _

theorem mark?_eq_none_iff {c : Char} {cs : List Char} :
    mark? (c :: cs) = none ↔ ∀ m : Mark, m.spelling.toList.head? ≠ some c := by
  constructor
  · intro h m hm
    cases m with
    | range | period =>
        cases hm
        exact mark?_point_ne_none cs h
    | semicolon | comma | colon | equals | openParen | closeParen | openBracket
      | closeBracket =>
        cases hm
        cases h
  · intro h
    cases hmark : mark? (c :: cs) with
    | none => rfl
    | some m =>
        rcases mark?_eq_some_iff.mp hmark with ⟨rest, hrest, _⟩
        rcases mark_first m with ⟨d, text, htext, _⟩
        rw [htext] at hrest
        cases hrest
        exact absurd (by rw [htext]; rfl) (h m)

theorem ne_openParen_of_mark {c : Char} (h : ∀ m : Mark, m.spelling.toList.head? ≠ some c) :
    c ≠ '(' := by
  rintro rfl
  exact h .openParen rfl

theorem front_of_no_class {c : Char} (hbrace : c ≠ '\x7b') (hquote : c ≠ '\'')
    (hblank : isBlank c = false) (hstart : Text.isNameStart c = false)
    (hdigit : c.isDigit = false) (hmark : ∀ m : Mark, m.spelling.toList.head? ≠ some c)
    (cs : List Char) : front (c :: cs) = .fault (.strayCharacter c) [c] := by
  have hparen := ne_openParen_of_mark hmark
  rw [front_eq_plain hbrace hquote fun hc => absurd hc hparen, plain, hblank, hstart, hdigit,
    mark?_eq_none_iff.mpr hmark]
  rfl

theorem startsNothing_iff {c : Char} :
    StartsNothing c ↔ c ≠ '\x7b' ∧ c ≠ '\'' ∧ isBlank c = false ∧ Text.isNameStart c = false ∧
      c.isDigit = false ∧ ∀ m : Mark, m.spelling.toList.head? ≠ some c := by
  constructor
  · intro h
    refine ⟨?_, ?_, ?_, ?_, ?_, ?_⟩
    · rintro rfl
      exact h.trivia _ (.braces (closedBy_self (by simp)) .nil) rfl
    · rintro rfl
      exact h.lexeme .literal _ ⟨[], by simp [OnOneLine], rfl⟩ rfl
    · rw [Bool.eq_false_iff]
      intro hblank
      exact h.trivia [c] (.blank hblank .nil) rfl
    · rw [Bool.eq_false_iff]
      intro hstart
      have hname : Text.isName [c] = true := by simp [Text.isName, hstart]
      exact h.lexeme _ [c] (spells_wordToken hname).2 rfl
    · rw [Bool.eq_false_iff]
      intro hdigit
      exact h.lexeme .number [c] ⟨by simp, by simp [hdigit]⟩ rfl
    · intro m
      exact h.lexeme (.mark m) _ rfl
  · intro h
    rcases h with ⟨hbrace, hquote, hblank, hstart, hdigit, hmark⟩
    constructor
    · intro token text hspells hhead
      rcases List.head?_eq_some_iff.mp hhead with ⟨text, rfl⟩
      have hlexeme := front_eq_lexeme_iff.mpr ⟨rfl, hspells, endsBefore_nil token⟩
      rw [List.append_nil, front_of_no_class hbrace hquote hblank hstart hdigit hmark] at hlexeme
      cases hlexeme
    · intro text htrivia hhead
      cases htrivia with
      | nil => cases hhead
      | blank hc =>
          cases hhead
          rw [hblank] at hc
          cases hc
      | braces =>
          cases hhead
          exact hbrace rfl
      | stars =>
          cases hhead
          exact ne_openParen_of_mark hmark rfl

/-!
## Faults at the front
-/

/--
A fault, the text it covers and the text behind that: a character that begins
nothing, or the opening of a literal or of a comment that is not closed.
-/
inductive FaultAt : LexFault → List Char → List Char → Prop where
  | stray {c : Char} {rest : List Char} :
      StartsNothing c → FaultAt (.strayCharacter c) [c] rest
  | literal {rest : List Char} :
      ¬ HasClosingQuote (firstLine rest) → FaultAt .openLiteral ['\''] rest
  | braces {rest : List Char} :
      ¬ ['\x7d'] <:+: rest → FaultAt .openComment ['\x7b'] rest
  | stars {rest : List Char} :
      ¬ ['*', ')'] <:+: rest → FaultAt .openComment ['(', '*'] rest

theorem comment_eq_fault_iff {opening close cs text : List Char} {fault : LexFault}
    (hclose : close ≠ []) :
    comment opening close cs = .fault fault text ↔
      fault = .openComment ∧ text = opening ∧ ¬ close <:+: cs := by
  rw [← splitAfter?_eq_none_iff hclose, comment]
  cases splitAfter? close cs with
  | none => simp [eq_comm]
  | some split => simp

theorem literal_eq_fault_iff {cs text : List Char} {fault : LexFault} :
    literal cs = .fault fault text ↔
      fault = .openLiteral ∧ text = ['\''] ∧ ¬ HasClosingQuote (firstLine cs) := by
  rw [← literalTail?_eq_none_iff, literal]
  cases literalTail? cs with
  | none => simp [eq_comm]
  | some tail => simp

theorem plain_eq_fault {c : Char} {cs text : List Char} {fault : LexFault}
    (h : plain c cs = .fault fault text) :
    (fault = .strayCharacter c ∧ text = [c]) ∧ isBlank c = false ∧
      Text.isNameStart c = false ∧ c.isDigit = false ∧
        ∀ m : Mark, m.spelling.toList.head? ≠ some c := by
  unfold plain at h
  split at h
  · cases h
  rename_i hblank
  split at h
  · cases h
  rename_i hstart
  split at h
  · cases h
  rename_i hdigit
  split at h
  · cases h
  · rename_i hmark
    cases h
    exact ⟨⟨rfl, rfl⟩, by simpa using hblank, by simpa using hstart, by simpa using hdigit,
      mark?_eq_none_iff.mp hmark⟩

theorem front_eq_fault_iff {cs text : List Char} {fault : LexFault} :
    front cs = .fault fault text ↔ ∃ rest, cs = text ++ rest ∧ FaultAt fault text rest := by
  constructor
  · intro h
    unfold front at h
    split at h
    case h_1 => cases h
    case h_2 cs =>
      rcases (comment_eq_fault_iff (by simp)).mp h with ⟨rfl, rfl, hopen⟩
      exact ⟨cs, rfl, .braces hopen⟩
    case h_3 cs =>
      rcases (comment_eq_fault_iff (by simp)).mp h with ⟨rfl, rfl, hopen⟩
      exact ⟨cs, rfl, .stars hopen⟩
    case h_4 cs =>
      rcases literal_eq_fault_iff.mp h with ⟨rfl, rfl, hopen⟩
      exact ⟨cs, rfl, .literal hopen⟩
    case h_5 c cs hbrace _ hquote =>
      rcases plain_eq_fault h with ⟨⟨rfl, rfl⟩, hclasses⟩
      exact ⟨cs, rfl, .stray (startsNothing_iff.mpr ⟨hbrace, hquote, hclasses⟩)⟩
  · intro h
    rcases h with ⟨rest, rfl, hfault⟩
    cases hfault with
    | @stray c _ hc =>
        rcases startsNothing_iff.mp hc with ⟨hbrace, hquote, hblank, hstart, hdigit, hmark⟩
        exact front_of_no_class hbrace hquote hblank hstart hdigit hmark rest
    | literal hopen => exact literal_eq_fault_iff.mpr ⟨rfl, rfl, hopen⟩
    | braces hopen => exact (comment_eq_fault_iff (by simp)).mpr ⟨rfl, rfl, hopen⟩
    | stars hopen => exact (comment_eq_fault_iff (by simp)).mpr ⟨rfl, rfl, hopen⟩

/-!
## The first fault
-/

theorem endsBefore_of_append {token : Token} {rest more : List Char}
    (h : EndsBefore token (rest ++ more)) : EndsBefore token rest := by
  cases rest with
  | nil => exact endsBefore_nil token
  | cons c rest =>
      have hhead : (c :: rest ++ more).head? = (c :: rest).head? := rfl
      exact (endsBefore_congr hhead).mp h

theorem exists_fault_of_tokensFrom {offset : Nat} {cs : List Char} {fault : LexFault}
    {span : Span} (h : tokensFrom offset cs = .error (fault, span)) :
    ∃ before text rest entries, cs = before ++ (text ++ rest) ∧ Tiling offset before entries ∧
      span = spanAt (offset + Text.byteLength before) text ∧ FaultAt fault text rest := by
  fun_induction tokensFrom offset cs with
  | case1 => cases h
  | case2 offset cs gap after hfront ih =>
      have hdivides := front_divides cs
      rw [hfront] at hdivides
      cases hdivides
      rcases ih h with ⟨before, text, rest, entries, rfl, htiling, hspan, hfault⟩
      refine ⟨gap ++ before, text, rest, entries, (List.append_assoc _ _ _).symm,
        htiling.trivia_append (front_trivia hfront), ?_, hfault⟩
      rw [hspan, Text.byteLength_append, Nat.add_assoc]
  | case3 => cases h
  | case4 offset cs token word after hfront e herror ih =>
      cases h
      rcases front_eq_lexeme_iff.mp hfront with ⟨hcs, hspells, hends⟩
      rcases ih herror with ⟨before, text, rest, entries, hafter, htiling, hspan, hfault⟩
      rw [hafter] at hcs hends
      refine ⟨word ++ before, text, rest, ⟨token, spanAt offset word⟩ :: entries, ?_, ?_, ?_,
        hfault⟩
      · rw [hcs, List.append_assoc]
      · exact @Tiling.next offset [] word before token entries .nil hspells
          (endsBefore_of_append hends) htiling
      · rw [hspan, Text.byteLength_append, Nat.add_assoc]
  | case5 offset cs fault' text hfront =>
      cases h
      rcases front_eq_fault_iff.mp hfront with ⟨rest, rfl, hfault⟩
      exact ⟨[], text, rest, [], rfl, .done .nil, rfl, hfault⟩

theorem tokensFrom_zero_of_fault {before text rest : List Char} {tokens : List PlacedToken}
    {fault : LexFault} (h : placedTokens before = .ok tokens)
    (hblank : before = [] ∨ ∃ c ∈ before.getLast?, isBlank c = true)
    (hfault : FaultAt fault text rest) :
    tokensFrom 0 (before ++ (text ++ rest)) =
      .error (fault, spanAt (Text.byteLength before) text) := by
  have hfront := front_eq_fault_iff.mpr ⟨rest, rfl, hfault⟩
  rcases hblank with rfl | hblank
  · exact tokensFrom_fault 0 hfront
  · rcases tokensFrom_zero_append h .nil (Or.inr hblank) with ⟨entries, _, hscan⟩
    rw [List.nil_append, tokensFrom_fault 0 hfront, List.append_nil] at hscan
    rw [hscan, ← Nat.add_zero (Text.byteLength before), spanAt_add]
    rfl

end Scan

/--
An error is reported at the first place where a text has a fault, and at every such
place that begins a text or stands behind a blank.
-/
theorem placedTokens_error_first :
    (∀ cs e, placedTokens cs = .error e →
      ∃ before text rest, cs = before ++ (text ++ rest) ∧
        e.span = ⟨Text.byteLength before, Text.byteLength before + Text.byteLength text⟩ ∧
        e.position = Position.ofOffset cs (Text.byteLength before) ∧
        (∃ tokens, placedTokens before = .ok tokens) ∧ Scan.FaultAt e.fault text rest) ∧
    ∀ before text rest tokens fault, placedTokens before = .ok tokens →
      (before = [] ∨ ∃ c ∈ before.getLast?, Scan.isBlank c = true) →
        Scan.FaultAt fault text rest →
          placedTokens (before ++ (text ++ rest)) =
            .error ⟨fault,
              ⟨Text.byteLength before, Text.byteLength before + Text.byteLength text⟩,
              Position.ofOffset (before ++ (text ++ rest)) (Text.byteLength before)⟩ := by
  constructor
  · intro cs e h
    rcases placedTokens_eq_error_iff.mp h with ⟨hscan, hposition⟩
    rcases Scan.exists_fault_of_tokensFrom hscan with
      ⟨before, text, rest, entries, hcs, htiling, hspan, hfault⟩
    rw [Nat.zero_add] at hspan
    refine ⟨before, text, rest, hcs, hspan, ?_, ?_, hfault⟩
    · rw [hposition, hspan]
      rfl
    · exact ⟨_, placedTokens_eq_ok_iff.mpr (Scan.tokensFrom_of_tiling htiling)⟩
  · intro before text rest tokens fault h hblank hfault
    exact placedTokens_eq_error_iff.mpr ⟨Scan.tokensFrom_zero_of_fault h hblank hfault, rfl⟩

theorem placedTokens_error_first_openComment :
    placedTokens ['é', '\x7d'] = .error ⟨.strayCharacter 'é', ⟨0, 2⟩, ⟨1, 1⟩⟩ ∧
      (∃ before text rest, ['é', '\x7d'] = before ++ (text ++ rest) ∧
        Scan.FaultAt (.strayCharacter 'é') text rest) ∧
      placedTokens "'é' ".toList = .ok [⟨.literal, ⟨0, 4⟩⟩, ⟨.endOfInput, ⟨5, 5⟩⟩] ∧
      Scan.FaultAt .openComment ['\x7b'] ['\'', '*', ')'] ∧
      placedTokens ("'é' ".toList ++ (['\x7b'] ++ ['\'', '*', ')'])) =
        .error ⟨.openComment, ⟨5, 6⟩, ⟨1, 5⟩⟩ := by
  have hstray : placedTokens ['é', '\x7d'] =
      .error ⟨.strayCharacter 'é', ⟨0, 2⟩, ⟨1, 1⟩⟩ := by decide +kernel
  have hbefore : placedTokens "'é' ".toList =
      .ok [⟨.literal, ⟨0, 4⟩⟩, ⟨.endOfInput, ⟨5, 5⟩⟩] := by decide +kernel
  have hfault : Scan.FaultAt .openComment ['\x7b'] ['\'', '*', ')'] := .braces (by decide)
  rcases placedTokens_error_first.1 _ _ hstray with ⟨before, text, rest, hcs, _, _, _, hfirst⟩
  have herror := placedTokens_error_first.2 _ _ _ _ _ hbefore (Or.inr ⟨' ', rfl, rfl⟩) hfault
  have hposition : Position.ofOffset ("'é' ".toList ++ (['\x7b'] ++ ['\'', '*', ')'])) 5 =
      ⟨1, 5⟩ := by decide +kernel
  refine ⟨hstray, ⟨before, text, rest, hcs, hfirst⟩, hbefore, hfault, herror.trans ?_⟩
  show Except.error (LexError.mk _ _ (Position.ofOffset _ 5)) = _
  rw [hposition]
  rfl

end PascalUnit
