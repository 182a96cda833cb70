import PascalUnit.Lexeme
import PascalUnit.Text.Name

/-!
# Dividing a source into lexemes

## Front of a text

What stands at the front of a text is decided by its first characters: blanks
and comments are trivia, and otherwise the longest lexeme that starts there is
taken.  `front` names the part it finds together with the text after it; the
lemmas at the end of that section say that nothing is lost and that every part
is non-empty, which bounds the scan.

## Scan

`placedTokens` repeats `front` to the end of the source, keeping byte offsets.
It stops at the first fault.
-/

namespace PascalUnit
namespace Scan

def isBlank (c : Char) : Bool :=
  c = ' ' || c = '\t' || c = '\r' || c = '\n' || c = '\x0c'

/-!
## Delimited texts
-/

/-- A text up to and including the first `close` in it, and the text after that. -/
def splitAfter? (close : List Char) : List Char → Option (List Char × List Char)
  | [] => none
  | c :: cs =>
      if close.isPrefixOf (c :: cs) then
        some (close, (c :: cs).drop close.length)
      else
        (splitAfter? close cs).map fun (text, rest) => (c :: text, rest)

/--
The rest of a string literal after its opening quote, closing quote included,
and the text after it.  A doubled quote stands for one quote; a literal does
not run past the end of its line.
-/
def literalTail? : List Char → Option (List Char × List Char)
  | [] => none
  | '\'' :: '\'' :: cs =>
      (literalTail? cs).map fun (text, rest) => ('\'' :: '\'' :: text, rest)
  | '\'' :: cs => some (['\''], cs)
  | c :: cs =>
      if c = '\r' || c = '\n' then none
      else (literalTail? cs).map fun (text, rest) => (c :: text, rest)

/-!
## Words and marks
-/

/-- The keyword a word spells, letter case aside. -/
def keyword? (word : List Char) : Option Keyword :=
  Keyword.all.find? fun k => decide (k.spelling.toList = word.map Char.toUpper)

/-- The builtin type a word spells exactly. -/
def builtin? (word : List Char) : Option Builtin :=
  Builtin.all.find? fun b => decide (b.spelling.toList = word)

def wordToken (word : List Char) : Token :=
  match keyword? word with
  | some k => .keyword k
  | none =>
      match builtin? word with
      | some b => .builtin b
      | none => .ident

/-- The longest mark that starts a text. -/
def mark? : List Char → Option Mark
  | ';' :: _ => some .semicolon
  | ',' :: _ => some .comma
  | ':' :: _ => some .colon
  | '=' :: _ => some .equals
  | '.' :: '.' :: _ => some .range
  | '.' :: _ => some .period
  | '(' :: _ => some .openParen
  | ')' :: _ => some .closeParen
  | '[' :: _ => some .openBracket
  | ']' :: _ => some .closeBracket
  | _ => none

/-!
## Front of a text
-/

inductive Front where
  | nothing
  | trivia (text rest : List Char)
  | lexeme (token : Token) (text rest : List Char)
  | fault (fault : LexFault) (text : List Char)
  deriving Repr

def comment (opening close cs : List Char) : Front :=
  match splitAfter? close cs with
  | some (text, rest) => .trivia (opening ++ text) rest
  | none => .fault .openComment opening

def literal (cs : List Char) : Front :=
  match literalTail? cs with
  | some (text, rest) => .lexeme .literal ('\'' :: text) rest
  | none => .fault .openLiteral ['\'']

/-- Blanks, words, numbers and marks, told apart by the first character. -/
def plain (c : Char) (cs : List Char) : Front :=
  if isBlank c then
    .trivia ((c :: cs).takeWhile isBlank) ((c :: cs).dropWhile isBlank)
  else if Text.isNameStart c then
    let word := (c :: cs).takeWhile Text.isNamePart
    .lexeme (wordToken word) word ((c :: cs).dropWhile Text.isNamePart)
  else if c.isDigit then
    .lexeme .number ((c :: cs).takeWhile Char.isDigit) ((c :: cs).dropWhile Char.isDigit)
  else
    match mark? (c :: cs) with
    | some m =>
        let width := m.spelling.length
        .lexeme (.mark m) ((c :: cs).take width) ((c :: cs).drop width)
    | none => .fault (.strayCharacter c) [c]

def front : List Char → Front
  | [] => .nothing
  | '\x7b' :: cs => comment ['\x7b'] ['\x7d'] cs
  | '(' :: '*' :: cs => comment ['(', '*'] ['*', ')'] cs
  | '\'' :: cs => literal cs
  | c :: cs => plain c cs

/-!
## Nothing is lost
-/

theorem splitAfter?_append {close cs text rest : List Char}
    (h : splitAfter? close cs = some (text, rest)) : text ++ rest = cs := by
  induction cs generalizing text with
  | nil => simp [splitAfter?] at h
  | cons c cs ih =>
      rw [splitAfter?] at h
      split at h
      · rename_i hclose
        rcases List.isPrefixOf_iff_prefix.mp hclose with ⟨tail, htail⟩
        simp only [Option.some.injEq, Prod.mk.injEq] at h
        rcases h with ⟨rfl, rfl⟩
        simp [← htail]
      · simp only [Option.map_eq_some_iff, Prod.exists, Prod.mk.injEq] at h
        rcases h with ⟨text', rest', hsplit, rfl, rfl⟩
        simp [ih hsplit]

theorem literalTail?_append {cs text rest : List Char}
    (h : literalTail? cs = some (text, rest)) : text ++ rest = cs := by
  fun_induction literalTail? cs generalizing text with
  | case1 => simp at h
  | case2 cs ih =>
      simp only [Option.map_eq_some_iff, Prod.exists, Prod.mk.injEq] at h
      rcases h with ⟨text', rest', htail, rfl, rfl⟩
      simp [ih htail]
  | case3 cs =>
      simp only [Option.some.injEq, Prod.mk.injEq] at h
      rcases h with ⟨rfl, rfl⟩
      rfl
  | case4 => simp at h
  | case5 c cs _ _ _ ih =>
      simp only [Option.map_eq_some_iff, Prod.exists, Prod.mk.injEq] at h
      rcases h with ⟨text', rest', htail, rfl, rfl⟩
      simp [ih htail]

/-- A front is a non-empty first part of the text, and comes with the text after it. -/
inductive Front.Divides : Front → List Char → Prop where
  | nothing : Divides .nothing []
  | trivia {text rest : List Char} :
      text ≠ [] → Divides (.trivia text rest) (text ++ rest)
  | lexeme {token : Token} {text rest : List Char} :
      text ≠ [] → Divides (.lexeme token text rest) (text ++ rest)
  | fault {fault : LexFault} {text rest : List Char} :
      text ≠ [] → Divides (.fault fault text) (text ++ rest)

theorem comment_divides {opening : List Char} (close cs : List Char)
    (h : opening ≠ []) : (comment opening close cs).Divides (opening ++ cs) := by
  unfold comment
  split
  · rename_i text rest hsplit
    rw [← splitAfter?_append hsplit, ← List.append_assoc]
    exact .trivia (by simp [h])
  · exact .fault h

theorem literal_divides (cs : List Char) : (literal cs).Divides ('\'' :: cs) := by
  unfold literal
  split
  · rename_i text rest htail
    rw [← literalTail?_append htail]
    exact @Front.Divides.lexeme _ ('\'' :: text) rest (by simp)
  · exact @Front.Divides.fault _ ['\''] cs (by simp)

theorem takeWhile_ne_nil {p : Char → Bool} {c : Char} (cs : List Char) (h : p c = true) :
    (c :: cs).takeWhile p ≠ [] := by
  simp [h]

theorem plain_divides (c : Char) (cs : List Char) : (plain c cs).Divides (c :: cs) := by
  unfold plain
  split
  · rename_i hblank
    have h := @Front.Divides.trivia _ ((c :: cs).dropWhile isBlank) (takeWhile_ne_nil cs hblank)
    rwa [List.takeWhile_append_dropWhile] at h
  · split
    · rename_i hword
      have h := @Front.Divides.lexeme (wordToken ((c :: cs).takeWhile Text.isNamePart)) _
        ((c :: cs).dropWhile Text.isNamePart)
        (takeWhile_ne_nil cs (Text.isNamePart_of_isNameStart hword))
      rwa [List.takeWhile_append_dropWhile] at h
    · split
      · rename_i hdigit
        have h := @Front.Divides.lexeme .number _ ((c :: cs).dropWhile Char.isDigit)
          (takeWhile_ne_nil cs hdigit)
        rwa [List.takeWhile_append_dropWhile] at h
      · split
        · rename_i m _
          have hwidth : m.spelling.length ≠ 0 := by cases m <;> decide
          have h := @Front.Divides.lexeme (.mark m) ((c :: cs).take m.spelling.length)
            ((c :: cs).drop m.spelling.length) (by simp [hwidth])
          rwa [List.take_append_drop] at h
        · exact @Front.Divides.fault _ [c] cs (by simp)

theorem front_divides (cs : List Char) : (front cs).Divides cs := by
  unfold front
  split
  · exact .nothing
  · exact comment_divides _ _ (by simp)
  · exact comment_divides _ _ (by simp)
  · exact literal_divides _
  · exact plain_divides _ _

theorem length_lt_of_trivia {cs text rest : List Char}
    (h : front cs = .trivia text rest) : rest.length < cs.length := by
  have hdivides := front_divides cs
  rw [h] at hdivides
  cases hdivides with
  | trivia hne =>
      have := List.length_pos_iff.mpr hne
      simp; omega

theorem length_lt_of_lexeme {cs text rest : List Char} {token : Token}
    (h : front cs = .lexeme token text rest) : rest.length < cs.length := by
  have hdivides := front_divides cs
  rw [h] at hdivides
  cases hdivides with
  | lexeme hne =>
      have := List.length_pos_iff.mpr hne
      simp; omega

/-!
## Scan
-/

def spanAt (offset : Nat) (text : List Char) : Span :=
  ⟨offset, offset + Text.byteLength text⟩

/--
The tokens of a text that begins at `offset`, closed by the end of input, or the
first fault with the bytes it covers.
-/
def tokensFrom (offset : Nat) (cs : List Char) :
    Except (LexFault × Span) (List PlacedToken) :=
  match _h : front cs with
  | .nothing => .ok [⟨.endOfInput, ⟨offset, offset⟩⟩]
  | .trivia text rest => tokensFrom (offset + Text.byteLength text) rest
  | .lexeme token text rest =>
      match tokensFrom (offset + Text.byteLength text) rest with
      | .ok more => .ok (⟨token, spanAt offset text⟩ :: more)
      | .error e => .error e
  | .fault fault text => .error (fault, spanAt offset text)
termination_by cs.length
decreasing_by
  · exact length_lt_of_trivia (by assumption)
  · exact length_lt_of_lexeme (by assumption)

end Scan

/-!
## Lexemes of a source
-/

def placedTokens (cs : List Char) : Except LexError (List PlacedToken) :=
  match Scan.tokensFrom 0 cs with
  | .ok tokens => .ok tokens
  | .error (fault, span) => .error ⟨fault, span, Position.ofOffset cs span.start⟩

namespace PlacedToken

/-- The text of a token in its source; empty when its span covers no text. -/
def sourceText (cs : List Char) (x : PlacedToken) : String :=
  match Text.slice? cs x.span with
  | some text => String.ofList text
  | none => ""

def toLexeme (table : LineTable) (cs : List Char) (x : PlacedToken) : Lexeme where
  token := x.token
  text := x.sourceText cs
  span := x.span
  position := table.position x.span.start

end PlacedToken

def lexemes (cs : List Char) : Except LexError (List Lexeme) :=
  match placedTokens cs with
  | .ok tokens =>
      let table := LineTable.ofText cs
      .ok (tokens.map (PlacedToken.toLexeme table cs))
  | .error e => .error e

end PascalUnit
