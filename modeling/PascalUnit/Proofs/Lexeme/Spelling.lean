import Mathlib.Data.List.TakeWhile
import PascalUnit.Lexeme.Scan

/-!
# What lexemes look like

The texts of each kind of token, what may not follow them, and what may stand
between them are described here without reference to a scan.  `front` is then
shown to find exactly these: it divides a text into a lexeme and a rest when the
first part is a text of the lexeme's kind and the rest does not continue it.
-/

namespace PascalUnit
namespace Scan

/-!
## Comments

A comment runs to the first closing mark behind its opening one.
-/

/-- A text that ends with `close` and has no earlier one. -/
def ClosedBy (close text : List Char) : Prop :=
  close <:+ text ∧ ¬ close <:+: text.dropLast

theorem closedBy_self {close : List Char} (h : close ≠ []) : ClosedBy close close := by
  refine ⟨List.suffix_refl _, ?_⟩
  intro hinfix
  have hle := hinfix.length_le
  have hpos := List.length_pos_iff.mpr h
  rw [List.length_dropLast] at hle
  omega

theorem ClosedBy.eq_of_front {close text : List Char} (h : ClosedBy close text)
    (rest : List Char) (hfront : close <+: text ++ rest) : text = close := by
  rcases h with ⟨hsuffix, hearlier⟩
  rcases Nat.lt_or_eq_of_le hsuffix.length_le with hlt | heq
  · have hshort : close <+: text.dropLast := by
      refine List.prefix_of_prefix_length_le hfront
        ( List.dropLast_prefix text |>.trans (List.prefix_append _ _)) ?_
      rw [List.length_dropLast]
      omega
    exact absurd hshort.isInfix hearlier
  · exact (hsuffix.eq_of_length heq).symm

theorem closedBy_cons {close text rest : List Char} {c : Char} (hclose : close ≠ [])
    (hfront : ¬ close <+: c :: text ++ rest) :
    ClosedBy close (c :: text) ↔ ClosedBy close text := by
  have hne : close ≠ c :: text := by
    intro heq
    subst heq
    exact hfront (List.prefix_append _ _)
  cases text with
  | nil =>
      constructor
      · intro h
        rcases h with ⟨hsuffix, _⟩
        rcases List.suffix_cons_iff.mp hsuffix with heq | hnil
        · exact absurd heq hne
        · exact absurd (List.suffix_nil.mp hnil) hclose
      · intro h
        rcases h with ⟨hsuffix, _⟩
        exact absurd (List.suffix_nil.mp hsuffix) hclose
  | cons d text =>
      have hearlier : ¬ close <+: c :: (d :: text).dropLast := by
        intro hshort
        refine hfront (hshort.trans ?_)
        rw [List.cons_append, List.cons_prefix_cons]
        exact ⟨rfl, List.dropLast_prefix _ |>.trans (List.prefix_append _ _)⟩
      rw [ClosedBy, ClosedBy, List.suffix_cons_iff, List.dropLast_cons_of_ne_nil (by simp),
        List.infix_cons_iff]
      simp [hne, hearlier]

theorem splitAfter?_eq_some_iff {close cs text rest : List Char} (hclose : close ≠ []) :
    splitAfter? close cs = some (text, rest) ↔ cs = text ++ rest ∧ ClosedBy close text := by
  induction cs generalizing text with
  | nil =>
      constructor
      · intro h
        cases h
      · intro h
        rcases h with ⟨heq, hsuffix, _⟩
        rcases List.append_eq_nil_iff.mp heq.symm with ⟨rfl, rfl⟩
        exact absurd (List.suffix_nil.mp hsuffix) hclose
  | cons c cs ih =>
      rw [splitAfter?]
      by_cases hfront : close <+: c :: cs
      -- a text that is closed at once is `close` itself
      · rw [if_pos (List.isPrefixOf_iff_prefix.mpr hfront)]
        rcases hfront with ⟨tail, htail⟩
        constructor
        · intro h
          cases h
          refine ⟨?_, closedBy_self hclose⟩
          rw [← htail]
          simp
        · intro h
          rcases h with ⟨heq, hclosed⟩
          have htext : text = close := by
            refine hclosed.eq_of_front rest ?_
            rw [← heq, ← htail]
            exact List.prefix_append _ _
          subst htext
          rw [heq]
          simp
      · rw [if_neg (by simpa using hfront)]
        constructor
        · intro h
          rcases Option.map_eq_some_iff.mp h with ⟨⟨text', rest'⟩, hsplit, heq⟩
          cases heq
          rcases ih.mp hsplit with ⟨rfl, hclosed⟩
          exact ⟨rfl, (closedBy_cons hclose hfront).mpr hclosed⟩
        · intro h
          rcases h with ⟨heq, hclosed⟩
          cases text with
          | nil => exact absurd (List.suffix_nil.mp hclosed.1) hclose
          | cons d text =>
              rw [List.cons_append, List.cons.injEq] at heq
              rcases heq with ⟨rfl, rfl⟩
              rw [ih.mpr ⟨rfl, (closedBy_cons hclose hfront).mp hclosed⟩]
              rfl

/-!
## String literals
-/

def doubled (value : List Char) : List Char :=
  value.flatMap fun c => if c = '\'' then ['\'', '\''] else [c]

def quoted (value : List Char) : List Char :=
  '\'' :: (doubled value ++ ['\''])

def OnOneLine (value : List Char) : Prop :=
  ∀ c ∈ value, c ≠ '\r' ∧ c ≠ '\n'

theorem doubled_cons (c : Char) (value : List Char) :
    doubled (c :: value) = (if c = '\'' then ['\'', '\''] else [c]) ++ doubled value := rfl

theorem onOneLine_cons {c : Char} {value : List Char} :
    OnOneLine (c :: value) ↔ (c ≠ '\r' ∧ c ≠ '\n') ∧ OnOneLine value :=
  List.forall_mem_cons

theorem literalTail?_doubled {value rest : List Char} (hvalue : OnOneLine value)
    (hrest : rest.head? ≠ some '\'') :
    literalTail? (doubled value ++ '\'' :: rest) = some (doubled value ++ ['\''], rest) := by
  induction value with
  | nil =>
      cases rest with
      | nil => rfl
      | cons c rest =>
          have hne : c ≠ '\'' := by
            intro h
            exact hrest (by rw [h]; rfl)
          show literalTail? ('\'' :: c :: rest) = some (['\''], c :: rest)
          rw [literalTail?]
          intro cs hcs
          exact hne (List.cons.inj hcs).1
  | cons c value ih =>
      rcases onOneLine_cons.mp hvalue with ⟨⟨hcr, hlf⟩, hmore⟩
      rw [doubled_cons]
      by_cases hquote : c = '\''
      · subst hquote
        show literalTail? ('\'' :: '\'' :: (doubled value ++ '\'' :: rest)) = _
        rw [literalTail?, ih hmore]
        rfl
      · rw [if_neg hquote]
        show literalTail? (c :: (doubled value ++ '\'' :: rest)) = _
        rw [literalTail?, ih hmore]
        · simp [hcr, hlf]
        · intro cs hc
          exact absurd hc hquote
        · exact hquote

theorem exists_value_of_literalTail? {cs text rest : List Char}
    (h : literalTail? cs = some (text, rest)) :
    rest.head? ≠ some '\'' ∧ ∃ value, OnOneLine value ∧ text = doubled value ++ ['\''] := by
  fun_induction literalTail? cs generalizing text with
  | case1 => cases h
  | case2 cs ih =>
      rcases Option.map_eq_some_iff.mp h with ⟨⟨text', rest'⟩, htail, heq⟩
      cases heq
      rcases ih htail with ⟨hrest, value, hvalue, htext⟩
      refine ⟨hrest, '\'' :: value, onOneLine_cons.mpr ⟨by decide, hvalue⟩, ?_⟩
      rw [doubled_cons, htext]
      rfl
  | case3 cs hcs =>
      cases h
      refine ⟨?_, [], by simp [OnOneLine], rfl⟩
      intro hhead
      rcases List.head?_eq_some_iff.mp hhead with ⟨rest, hrest⟩
      exact hcs rest hrest
  | case4 => cases h
  | case5 c cs _ hquote hline ih =>
      rcases Option.map_eq_some_iff.mp h with ⟨⟨text', rest'⟩, htail, heq⟩
      cases heq
      rcases ih htail with ⟨hrest, value, hvalue, htext⟩
      have hc : c ≠ '\r' ∧ c ≠ '\n' := by simpa using hline
      refine ⟨hrest, c :: value, onOneLine_cons.mpr ⟨hc, hvalue⟩, ?_⟩
      rw [doubled_cons, if_neg hquote, htext]
      rfl

/-!
## Texts of tokens

Keywords are spelled in any letter case and builtin types in upper case only;
every other name is an identifier.
-/

def Spells : Token → List Char → Prop
  | .keyword k, text => text.map Char.toUpper = k.spelling.toList
  | .builtin b, text => text = b.spelling.toList
  | .ident, text =>
      Text.isName text = true ∧ (∀ k : Keyword, text.map Char.toUpper ≠ k.spelling.toList) ∧
        ∀ b : Builtin, text ≠ b.spelling.toList
  | .number, text => text ≠ [] ∧ ∀ c ∈ text, c.isDigit = true
  | .literal, text => ∃ value, OnOneLine value ∧ text = quoted value
  | .comment, _ => False
  | .mark m, text => text = m.spelling.toList
  | .endOfInput, _ => False

/-- The text behind a token does not continue it. -/
def EndsBefore : Token → List Char → Prop
  | .keyword _, rest => ∀ c ∈ rest.head?, Text.isNamePart c = false
  | .builtin _, rest => ∀ c ∈ rest.head?, Text.isNamePart c = false
  | .ident, rest => ∀ c ∈ rest.head?, Text.isNamePart c = false
  | .number, rest => ∀ c ∈ rest.head?, c.isDigit = false
  | .literal, rest => rest.head? ≠ some '\''
  | .mark .period, rest => rest.head? ≠ some '.'
  | .mark .openParen, rest => rest.head? ≠ some '*'
  | _, _ => True

/-- Texts that may stand between lexemes: blanks and comments, one after another. -/
inductive Trivia : List Char → Prop where
  | nil : Trivia []
  | blank {c : Char} {rest : List Char} :
      isBlank c = true → Trivia rest → Trivia (c :: rest)
  | braces {text rest : List Char} :
      ClosedBy ['\x7d'] text → Trivia rest → Trivia ('\x7b' :: (text ++ rest))
  | stars {text rest : List Char} :
      ClosedBy ['*', ')'] text → Trivia rest → Trivia ('(' :: '*' :: (text ++ rest))

/-!
## Words
-/

theorem isName_of_isAlpha {text : List Char} (hne : text ≠ [])
    (h : ∀ c ∈ text, c.isAlpha = true) : Text.isName text = true := by
  cases text with
  | nil => exact absurd rfl hne
  | cons c text =>
      rw [Text.isName, Bool.and_eq_true, List.all_eq_true]
      constructor
      · simp [Text.isNameStart, h c List.mem_cons_self]
      · intro d hd
        simp [Text.isNamePart, Char.isAlphanum, h d (List.mem_cons_of_mem c hd)]

theorem isAlpha_of_toUpper {c : Char} (h : c.toUpper.isAlpha = true) : c.isAlpha = true := by
  cases hlower : c.isLower with
  | true => exact Bool.or_eq_true_iff.mpr (Or.inr hlower)
  | false =>
      have hupper : c.toUpper = c := by
        apply dif_neg
        intro hletter
        have hlower' : c.isLower = true := by
          apply Bool.and_eq_true_iff.mpr
          exact ⟨decide_eq_true hletter.1, decide_eq_true hletter.2⟩
        rw [hlower] at hlower'
        cases hlower'
      rwa [hupper] at h

theorem isName_of_keyword {k : Keyword} {text : List Char}
    (h : text.map Char.toUpper = k.spelling.toList) : Text.isName text = true := by
  have hspelling : k.spelling.toList.all Char.isAlpha = true := by
    cases k <;> rfl
  have hne : k.spelling.toList ≠ [] := by
    cases k <;> decide
  refine isName_of_isAlpha ?_ ?_
  · intro htext
    rw [htext] at h
    exact hne h.symm
  · intro c hc
    apply isAlpha_of_toUpper
    apply List.all_eq_true.mp hspelling
    rw [← h]
    exact List.mem_map_of_mem hc

theorem isName_of_builtin (b : Builtin) : Text.isName b.spelling.toList = true := by
  cases b <;> decide

theorem keyword?_eq_some_iff {word : List Char} {k : Keyword} :
    keyword? word = some k ↔ word.map Char.toUpper = k.spelling.toList := by
  constructor
  · intro h
    have hfound := List.find?_some h
    exact (of_decide_eq_true hfound).symm
  · intro h
    rw [keyword?, h]
    cases k <;> rfl

theorem keyword?_eq_none_iff {word : List Char} :
    keyword? word = none ↔ ∀ k : Keyword, word.map Char.toUpper ≠ k.spelling.toList := by
  constructor
  · intro h k hk
    rw [keyword?_eq_some_iff.mpr hk] at h
    cases h
  · intro h
    cases hfound : keyword? word with
    | none => rfl
    | some k => exact absurd (keyword?_eq_some_iff.mp hfound) (h k)

theorem builtin?_eq_some_iff {word : List Char} {b : Builtin} :
    builtin? word = some b ↔ word = b.spelling.toList := by
  constructor
  · intro h
    have hfound := List.find?_some h
    exact (of_decide_eq_true hfound).symm
  · intro h
    rw [builtin?, h]
    cases b <;> rfl

theorem builtin?_eq_none_iff {word : List Char} :
    builtin? word = none ↔ ∀ b : Builtin, word ≠ b.spelling.toList := by
  constructor
  · intro h b hb
    rw [builtin?_eq_some_iff.mpr hb] at h
    cases h
  · intro h
    cases hfound : builtin? word with
    | none => rfl
    | some b => exact absurd (builtin?_eq_some_iff.mp hfound) (h b)

theorem keyword?_builtin (b : Builtin) : keyword? b.spelling.toList = none := by
  cases b <;> rfl

def IsWordKind : Token → Prop
  | .keyword _ | .builtin _ | .ident => True
  | _ => False

theorem spells_wordToken {word : List Char} (h : Text.isName word = true) :
    IsWordKind (wordToken word) ∧ Spells (wordToken word) word := by
  unfold wordToken
  cases hkeyword : keyword? word with
  | some k => exact ⟨trivial, keyword?_eq_some_iff.mp hkeyword⟩
  | none =>
      cases hbuiltin : builtin? word with
      | some b => exact ⟨trivial, builtin?_eq_some_iff.mp hbuiltin⟩
      | none =>
          exact ⟨trivial, h, keyword?_eq_none_iff.mp hkeyword, builtin?_eq_none_iff.mp hbuiltin⟩

theorem wordToken_of_spells {token : Token} {word : List Char} (hkind : IsWordKind token)
    (h : Spells token word) : Text.isName word = true ∧ wordToken word = token := by
  unfold wordToken
  cases token with
  | keyword k =>
      refine ⟨isName_of_keyword h, ?_⟩
      rw [keyword?_eq_some_iff.mpr h]
  | builtin b =>
      cases h
      refine ⟨isName_of_builtin b, ?_⟩
      rw [keyword?_builtin, builtin?_eq_some_iff.mpr rfl]
  | ident =>
      rcases h with ⟨hname, hkeyword, hbuiltin⟩
      refine ⟨hname, ?_⟩
      rw [keyword?_eq_none_iff.mpr hkeyword, builtin?_eq_none_iff.mpr hbuiltin]
  | number | literal | comment | mark | endOfInput => cases hkind

theorem endsBefore_word {token : Token} {rest : List Char} (hkind : IsWordKind token)
    (h : ∀ c ∈ rest.head?, Text.isNamePart c = false) : EndsBefore token rest := by
  cases token with
  | keyword | builtin | ident => exact h
  | number | literal | comment | mark | endOfInput => cases hkind

/-!
## Runs and marks
-/

theorem takeWhile_eq_of_ends {p : Char → Bool} {text rest : List Char}
    (htext : ∀ c ∈ text, p c = true) (hrest : ∀ c ∈ rest.head?, p c = false) :
    (text ++ rest).takeWhile p = text ∧ (text ++ rest).dropWhile p = rest := by
  rw [List.takeWhile_append_of_pos htext, List.dropWhile_append_of_pos htext]
  cases rest with
  | nil => simp
  | cons c rest =>
      have hc : p c = false := hrest c rfl
      simp [hc]

theorem head?_dropWhile_ends (p : Char → Bool) (cs : List Char) :
    ∀ c ∈ (cs.dropWhile p).head?, p c = false := by
  intro c hc
  have h := List.head?_dropWhile_not p cs
  rw [Option.mem_def] at hc
  rw [hc] at h
  exact h

theorem isNamePart_of_isName {text : List Char} (h : Text.isName text = true) :
    ∀ c ∈ text, Text.isNamePart c = true := by
  cases text with
  | nil => cases h
  | cons d text =>
      rw [Text.isName, Bool.and_eq_true, List.all_eq_true] at h
      intro c hc
      rcases List.mem_cons.mp hc with heq | hmem
      · rw [heq]
        exact Text.isNamePart_of_isNameStart h.1
      · exact h.2 c hmem

theorem isName_takeWhile {c : Char} (cs : List Char) (h : Text.isNameStart c = true) :
    Text.isName ((c :: cs).takeWhile Text.isNamePart) = true := by
  rw [List.takeWhile_cons_of_pos (Text.isNamePart_of_isNameStart h), Text.isName,
    Bool.and_eq_true]
  exact ⟨h, List.all_takeWhile⟩

/-- A lone point is a period, and two points in a row are a range. -/
theorem mark?_eq_some_iff {cs : List Char} {m : Mark} :
    mark? cs = some m ↔
      ∃ rest, cs = m.spelling.toList ++ rest ∧ (m = .period → rest.head? ≠ some '.') := by
  constructor
  · intro h
    unfold mark? at h
    split at h
    -- every other mark is found whatever stands behind it
    case h_6 rest hlone =>
      cases h
      refine ⟨rest, rfl, ?_⟩
      intro _ hhead
      rcases List.head?_eq_some_iff.mp hhead with ⟨rest', hrest⟩
      exact hlone rest' hrest
    case h_11 => cases h
    all_goals
      cases h
      exact ⟨_, rfl, by simp⟩
  · intro h
    rcases h with ⟨rest, rfl, hlone⟩
    cases m with
    | period =>
        cases rest with
        | nil => rfl
        | cons c rest =>
            have hne : c ≠ '.' := by
              intro heq
              exact hlone rfl (congrArg some heq)
            show mark? ('.' :: c :: rest) = some .period
            rw [mark?]
            intro rest' heq
            exact hne (List.cons.inj heq).1
    | semicolon | comma | colon | equals | range | openParen | closeParen | openBracket
      | closeBracket => rfl

theorem endsBefore_mark_iff {m : Mark} {rest : List Char} :
    EndsBefore (.mark m) rest ↔
      (m = .period → rest.head? ≠ some '.') ∧ (m = .openParen → rest.head? ≠ some '*') := by
  cases m <;> simp [EndsBefore]

/-!
## The front of a text
-/

theorem front_eq_plain {c : Char} {cs : List Char} (hbrace : c ≠ '\x7b') (hquote : c ≠ '\'')
    (hstar : c = '(' → cs.head? ≠ some '*') : front (c :: cs) = plain c cs := by
  unfold front
  split
  case h_1 heq => cases heq
  case h_2 heq => exact absurd (List.cons.inj heq).1 hbrace
  case h_3 heq =>
    rcases List.cons.inj heq with ⟨hc, hcs⟩
    exact absurd (by rw [hcs]; rfl) (hstar hc)
  case h_4 heq => exact absurd (List.cons.inj heq).1 hquote
  case h_5 heq =>
    rcases List.cons.inj heq with ⟨rfl, rfl⟩
    rfl

theorem front_eq_plain_of_class {p : Char → Bool} {c : Char} {cs : List Char}
    (hc : p c = true) (hbrace : p '\x7b' = false) (hquote : p '\'' = false)
    (hparen : p '(' = false) : front (c :: cs) = plain c cs := by
  have hne : ∀ d, p d = false → c ≠ d := by
    intro d hd heq
    rw [heq, hd] at hc
    cases hc
  refine front_eq_plain (hne _ hbrace) (hne _ hquote) ?_
  intro heq
  exact absurd heq (hne _ hparen)

theorem comment_eq_trivia_iff {opening close cs text rest : List Char} (hclose : close ≠ []) :
    comment opening close cs = .trivia text rest ↔
      ∃ body, text = opening ++ body ∧ cs = body ++ rest ∧ ClosedBy close body := by
  unfold comment
  constructor
  · intro h
    split at h
    · rename_i body rest' hsplit
      cases h
      exact ⟨body, rfl, (splitAfter?_eq_some_iff hclose).mp hsplit⟩
    · cases h
  · intro h
    rcases h with ⟨body, rfl, hbody⟩
    rw [(splitAfter?_eq_some_iff hclose).mpr hbody]

theorem front_braces {text rest : List Char} (h : ClosedBy ['\x7d'] text) :
    front ('\x7b' :: (text ++ rest)) = .trivia ('\x7b' :: text) rest :=
  (comment_eq_trivia_iff (by simp)).mpr ⟨text, rfl, rfl, h⟩

theorem front_stars {text rest : List Char} (h : ClosedBy ['*', ')'] text) :
    front ('(' :: '*' :: (text ++ rest)) = .trivia ('(' :: '*' :: text) rest :=
  (comment_eq_trivia_iff (by simp)).mpr ⟨text, rfl, rfl, h⟩

theorem isNameStart_of_isBlank {c : Char} (h : isBlank c = true) :
    Text.isNameStart c = false ∧ c.isDigit = false := by
  simp only [isBlank, Bool.or_eq_true, decide_eq_true_eq] at h
  rcases h with (((rfl | rfl) | rfl) | rfl) | rfl <;> decide

theorem front_blank {c : Char} {cs : List Char} (h : isBlank c = true) :
    front (c :: cs) =
      .trivia ((c :: cs).takeWhile isBlank) ((c :: cs).dropWhile isBlank) := by
  rw [front_eq_plain_of_class h rfl rfl rfl, plain, if_pos h]

/-!
## Lexemes at the front
-/

theorem isNameStart_of_isDigit {c : Char} (h : c.isDigit = true) :
    Text.isNameStart c = false := by
  rw [Bool.eq_false_iff]
  intro hstart
  have hdigit : c.val ≤ '9'.val := of_decide_eq_true (Bool.and_eq_true_iff.mp h).2
  rcases Bool.or_eq_true_iff.mp hstart with hletter | hmark
  · rcases Bool.or_eq_true_iff.mp hletter with hupper | hlower
    · have hbound : 'A'.val ≤ c.val := (of_decide_eq_true hupper).1
      exact absurd (UInt32.le_trans hbound hdigit) (by decide)
    · have hbound : 'a'.val ≤ c.val := of_decide_eq_true (Bool.and_eq_true_iff.mp hlower).1
      exact absurd (UInt32.le_trans hbound hdigit) (by decide)
  · rw [of_decide_eq_true hmark] at hdigit
    exact absurd hdigit (by decide)

theorem front_word {token : Token} {text rest : List Char} (hkind : IsWordKind token)
    (hspells : Spells token text) (hrest : ∀ c ∈ rest.head?, Text.isNamePart c = false) :
    front (text ++ rest) = .lexeme token text rest := by
  rcases wordToken_of_spells hkind hspells with ⟨hname, htoken⟩
  rcases takeWhile_eq_of_ends (isNamePart_of_isName hname) hrest with ⟨htake, hdrop⟩
  cases text with
  | nil => cases hname
  | cons c text =>
      rw [Text.isName, Bool.and_eq_true] at hname
      have hblank : ¬ isBlank c = true := by
        intro hblank
        rw [(isNameStart_of_isBlank hblank).1] at hname
        cases hname.1
      rw [List.cons_append] at htake hdrop ⊢
      rw [front_eq_plain_of_class hname.1 rfl rfl rfl, plain, if_neg hblank, if_pos hname.1]
      simp only [htake, hdrop, htoken]

theorem front_number {text rest : List Char} (hspells : Spells .number text)
    (hrest : ∀ c ∈ rest.head?, c.isDigit = false) :
    front (text ++ rest) = .lexeme .number text rest := by
  rcases hspells with ⟨hne, hdigits⟩
  rcases takeWhile_eq_of_ends hdigits hrest with ⟨htake, hdrop⟩
  cases text with
  | nil => exact absurd rfl hne
  | cons c text =>
      have hdigit : c.isDigit = true := hdigits c List.mem_cons_self
      have hblank : ¬ isBlank c = true := by
        intro hblank
        rw [(isNameStart_of_isBlank hblank).2] at hdigit
        cases hdigit
      rw [List.cons_append] at htake hdrop ⊢
      rw [front_eq_plain_of_class hdigit rfl rfl rfl, plain, if_neg hblank,
        if_neg (by simp [isNameStart_of_isDigit hdigit]), if_pos hdigit, htake, hdrop]

theorem front_literal {value rest : List Char} (hvalue : OnOneLine value)
    (hrest : rest.head? ≠ some '\'') :
    front (quoted value ++ rest) = .lexeme .literal (quoted value) rest := by
  have happend : quoted value ++ rest = '\'' :: (doubled value ++ '\'' :: rest) := by
    simp [quoted]
  rw [happend, front, literal, literalTail?_doubled hvalue hrest]
  rfl

theorem mark_first (m : Mark) : ∃ c text, m.spelling.toList = c :: text ∧
    isBlank c = false ∧ Text.isNameStart c = false ∧ c.isDigit = false ∧
      c ≠ '\x7b' ∧ c ≠ '\'' ∧ (c = '(' → m = .openParen ∧ text = []) := by
  cases m <;> refine ⟨_, _, rfl, ?_⟩ <;> decide

theorem front_mark {m : Mark} {rest : List Char} (hends : EndsBefore (.mark m) rest) :
    front (m.spelling.toList ++ rest) = .lexeme (.mark m) m.spelling.toList rest := by
  rw [endsBefore_mark_iff] at hends
  have hmark := mark?_eq_some_iff.mpr ⟨rest, rfl, hends.1⟩
  have hwidth : m.spelling.length = m.spelling.toList.length := rfl
  rcases mark_first m with ⟨c, text, htext, hblank, hstart, hdigit, hbrace, hquote, hparen⟩
  have hstar : c = '(' → (text ++ rest).head? ≠ some '*' := by
    intro hc
    rcases hparen hc with ⟨hm, htext⟩
    rw [htext]
    exact hends.2 hm
  rw [htext, List.cons_append] at hmark
  rw [htext] at hwidth
  rw [htext, List.cons_append, front_eq_plain hbrace hquote hstar, plain, hblank, hstart,
    hdigit, hmark]
  simp only [hwidth]
  rw [← List.cons_append, List.take_left, List.drop_left]
  rfl

theorem plain_lexeme {c : Char} {cs text rest : List Char} {token : Token}
    (hstar : c = '(' → cs.head? ≠ some '*') (h : plain c cs = .lexeme token text rest) :
    Spells token text ∧ EndsBefore token rest := by
  unfold plain at h
  split at h
  · cases h
  split at h
  · rename_i hstart
    cases h
    rcases spells_wordToken (isName_takeWhile cs hstart) with ⟨hkind, hspells⟩
    exact ⟨hspells, endsBefore_word hkind (head?_dropWhile_ends _ _)⟩
  split at h
  · rename_i hdigit
    cases h
    refine ⟨⟨takeWhile_ne_nil cs hdigit, ?_⟩, head?_dropWhile_ends _ _⟩
    exact List.all_eq_true.mp List.all_takeWhile
  split at h
  · rename_i m hmark
    rcases mark?_eq_some_iff.mp hmark with ⟨after, hafter, hlone⟩
    have hwidth : m.spelling.length = m.spelling.toList.length := rfl
    simp only [hafter, hwidth, List.take_left, List.drop_left] at h
    cases h
    refine ⟨rfl, endsBefore_mark_iff.mpr ⟨hlone, ?_⟩⟩
    intro hm
    rw [hm] at hafter
    have hparen : c :: cs = '(' :: rest := hafter
    rcases List.cons.inj hparen with ⟨hc, hcs⟩
    rw [← hcs]
    exact hstar hc
  · cases h

theorem front_lexeme {cs text rest : List Char} {token : Token}
    (h : front cs = .lexeme token text rest) : Spells token text ∧ EndsBefore token rest := by
  unfold front at h
  split at h
  case h_1 => cases h
  case h_2 | h_3 =>
    unfold comment at h
    split at h <;> cases h
  case h_4 cs =>
    unfold literal at h
    split at h
    · rename_i text' rest' htail
      cases h
      rcases exists_value_of_literalTail? htail with ⟨hrest, value, hvalue, htext⟩
      rw [htext]
      exact ⟨⟨value, hvalue, rfl⟩, hrest⟩
    · cases h
  case h_5 c cs _ hstar _ =>
    refine plain_lexeme ?_ h
    intro hc hhead
    rcases List.head?_eq_some_iff.mp hhead with ⟨cs', hcs⟩
    exact hstar cs' hc hcs

/-- `front` takes a lexeme where a text begins with one that the rest does not continue. -/
theorem front_eq_lexeme_iff {cs text rest : List Char} {token : Token} :
    front cs = .lexeme token text rest ↔
      cs = text ++ rest ∧ Spells token text ∧ EndsBefore token rest := by
  constructor
  · intro h
    have hdivides := front_divides cs
    rw [h] at hdivides
    cases hdivides
    exact ⟨rfl, front_lexeme h⟩
  · intro h
    rcases h with ⟨rfl, hspells, hends⟩
    cases token with
    | keyword k => exact front_word trivial hspells hends
    | builtin b => exact front_word trivial hspells hends
    | ident => exact front_word trivial hspells hends
    | number => exact front_number hspells hends
    | literal =>
        rcases hspells with ⟨value, hvalue, rfl⟩
        exact front_literal hvalue hends
    | mark m =>
        cases hspells
        exact front_mark hends
    | comment | endOfInput => cases hspells

theorem endsBefore_nil (token : Token) : EndsBefore token [] := by
  cases token with
  | mark m => simp [endsBefore_mark_iff]
  | keyword | builtin | ident | number | literal | comment | endOfInput => simp [EndsBefore]

theorem endsBefore_of_head {c : Char} (hpart : Text.isNamePart c = false) (hquote : c ≠ '\'')
    (hpoint : c ≠ '.') (hstar : c ≠ '*') (token : Token) (rest : List Char) :
    EndsBefore token (c :: rest) := by
  have hdigit : c.isDigit = false := by
    simp only [Text.isNamePart, Char.isAlphanum, Bool.or_eq_false_iff] at hpart
    exact hpart.1.2
  cases token with
  | mark m => simp [endsBefore_mark_iff, hpoint, hstar]
  | keyword | builtin | ident | number | literal | comment | endOfInput =>
      simp [EndsBefore, hpart, hdigit, hquote]

theorem endsBefore_space (token : Token) (rest : List Char) :
    EndsBefore token (' ' :: rest) :=
  endsBefore_of_head (by decide) (by decide) (by decide) (by decide) token rest

theorem ne_nil_of_spells {token : Token} {text : List Char} (h : Spells token text) :
    text ≠ [] := by
  have hfront := front_eq_lexeme_iff.mpr ⟨rfl, h, endsBefore_nil token⟩
  have hdivides := front_divides (text ++ [])
  rw [hfront] at hdivides
  cases hdivides with
  | lexeme hne => exact hne

/-!
## Trivia at the front
-/

theorem trivia_append {a b : List Char} (ha : Trivia a) (hb : Trivia b) : Trivia (a ++ b) := by
  induction ha with
  | nil => exact hb
  | blank hblank _ ih => exact .blank hblank ih
  | braces hclosed _ ih =>
      rw [List.cons_append, List.append_assoc]
      exact .braces hclosed ih
  | stars hclosed _ ih =>
      rw [List.cons_append, List.cons_append, List.append_assoc]
      exact .stars hclosed ih

theorem trivia_of_blanks {text : List Char} (h : ∀ c ∈ text, isBlank c = true) :
    Trivia text := by
  induction text with
  | nil => exact .nil
  | cons c text ih =>
      rw [List.forall_mem_cons] at h
      exact .blank h.1 (ih h.2)

theorem front_trivia {cs text rest : List Char} (h : front cs = .trivia text rest) :
    Trivia text := by
  unfold front at h
  split at h
  case h_1 => cases h
  case h_2 cs =>
    rcases (comment_eq_trivia_iff (by simp)).mp h with ⟨body, rfl, _, hclosed⟩
    have htrivia := Trivia.braces hclosed .nil
    rwa [List.append_nil] at htrivia
  case h_3 cs =>
    rcases (comment_eq_trivia_iff (by simp)).mp h with ⟨body, rfl, _, hclosed⟩
    have htrivia := Trivia.stars hclosed .nil
    rwa [List.append_nil] at htrivia
  case h_4 cs =>
    unfold literal at h
    split at h <;> cases h
  case h_5 c cs _ _ _ =>
    unfold plain at h
    split at h
    · cases h
      exact trivia_of_blanks (List.all_eq_true.mp List.all_takeWhile)
    split at h
    · cases h
    split at h
    · cases h
    split at h <;> cases h

end Scan
end PascalUnit
