import Mathlib.Data.List.Forall2
import PascalUnit.Json
import PascalUnit.Proofs.Lexeme.Spelling
import PascalUnit.Text.Decimal

/-!
# Reading JSON

A JSON text is read in two passes.  The first one divides it into signs, which are
brackets, separators, texts and counts; blanks between signs are dropped.  The second
one builds the value that the signs describe.

## Written values

`signs` lists the signs of a value.  Both written forms of a value, on one line and
spread over lines, are spellings of its signs that differ in blanks alone.  So one
reader reads both back.
-/

namespace PascalUnit
namespace Json

inductive Sign where
  | openList
  | closeList
  | openRecord
  | closeRecord
  | comma
  | colon
  | text (s : String)
  | count (n : Nat)
  deriving DecidableEq, Repr

/-!
## Quoted texts
-/

def hexValue? (digits : List Char) : Option Nat :=
  digits.foldlM (fun n c => ("0123456789abcdef".toList.idxOf? c).map (16 * n + ·)) 0

def unescape? : Char → Option Char
  | '"' => some '"'
  | '\\' => some '\\'
  | '/' => some '/'
  | 'b' => some '\x08'
  | 'f' => some '\x0c'
  | 'n' => some '\n'
  | 'r' => some '\r'
  | 't' => some '\t'
  | _ => none

def readChar? : List Char → Option (Char × List Char)
  | '\\' :: 'u' :: h₁ :: h₂ :: h₃ :: h₄ :: rest =>
      (hexValue? [h₁, h₂, h₃, h₄]).map fun n => (Char.ofNat n, rest)
  | '\\' :: letter :: rest => (unescape? letter).map fun c => (c, rest)
  | ['\\'] => none
  | c :: rest => some (c, rest)
  | [] => none

theorem length_lt_of_readChar? {cs rest : List Char} {c : Char}
    (h : readChar? cs = some (c, rest)) : rest.length < cs.length := by
  unfold readChar? at h
  split at h
  · rcases Option.map_eq_some_iff.mp h with ⟨n, _, heq⟩
    cases heq
    simp only [List.length_cons]
    omega
  · rcases Option.map_eq_some_iff.mp h with ⟨d, _, heq⟩
    cases heq
    simp only [List.length_cons]
    omega
  · cases h
  · cases h
    exact Nat.lt_succ_self _
  · cases h

def unquote? (cs : List Char) : Option (List Char × List Char) :=
  if cs.head? = some '"' then some ([], cs.tail)
  else
    match _h : readChar? cs with
    | none => none
    | some (c, rest) => (unquote? rest).map fun (content, after) => (c :: content, after)
termination_by cs.length
decreasing_by exact length_lt_of_readChar? (by assumption)

theorem length_lt_of_unquote? {cs content rest : List Char}
    (h : unquote? cs = some (content, rest)) : rest.length < cs.length := by
  fun_induction unquote? cs generalizing content with
  | case1 cs hquote =>
      rcases List.head?_eq_some_iff.mp hquote with ⟨tail, rfl⟩
      cases h
      exact Nat.lt_succ_self _
  | case2 => cases h
  | case3 cs _ c after hchar ih =>
      rcases Option.map_eq_some_iff.mp h with ⟨x, hx, heq⟩
      cases heq
      exact (ih hx).trans (length_lt_of_readChar? hchar)

theorem controlEscape_eq {c : Char} (h : c.toNat < 0x20) :
    ∃ h₁ h₂ h₃ h₄, controlEscape c = ['\\', 'u', h₁, h₂, h₃, h₄] ∧
      hexValue? [h₁, h₂, h₃, h₄] = some c.toNat := by
  have hall : ∀ n < 0x20,
      controlEscape (Char.ofNat n) =
          ['\\', 'u', '0', '0', Nat.digitChar (n / 16), Nat.digitChar (n % 16)] ∧
        hexValue? ['0', '0', Nat.digitChar (n / 16), Nat.digitChar (n % 16)] = some n := by
    decide
  have hc := hall c.toNat h
  rw [Char.ofNat_toNat] at hc
  exact ⟨_, _, _, _, hc⟩

theorem escape_cases (c : Char) :
    (∃ letter, escape c = ['\\', letter] ∧ unescape? letter = some c) ∨
      (∃ h₁ h₂ h₃ h₄, escape c = ['\\', 'u', h₁, h₂, h₃, h₄] ∧
        hexValue? [h₁, h₂, h₃, h₄] = some c.toNat) ∨
      (escape c = [c] ∧ c ≠ '"' ∧ c ≠ '\\') := by
  unfold escape
  split_ifs with hquote hbackslash hbackspace hpage hline hreturn htab hcontrol
  · exact .inl ⟨'"', rfl, by rw [hquote]; rfl⟩
  · exact .inl ⟨'\\', rfl, by rw [hbackslash]; rfl⟩
  · exact .inl ⟨'b', rfl, by rw [hbackspace]; rfl⟩
  · exact .inl ⟨'f', rfl, by rw [hpage]; rfl⟩
  · exact .inl ⟨'n', rfl, by rw [hline]; rfl⟩
  · exact .inl ⟨'r', rfl, by rw [hreturn]; rfl⟩
  · exact .inl ⟨'t', rfl, by rw [htab]; rfl⟩
  · exact .inr (.inl (controlEscape_eq hcontrol))
  · exact .inr (.inr ⟨rfl, hquote, hbackslash⟩)

theorem readChar?_escape (c : Char) (rest : List Char) :
    readChar? (escape c ++ rest) = some (c, rest) := by
  rcases escape_cases c with ⟨letter, hescape, hletter⟩ | ⟨h₁, h₂, h₃, h₄, hescape, hvalue⟩ |
    ⟨hescape, _, hbackslash⟩
  · rw [hescape]
    show readChar? ('\\' :: letter :: rest) = _
    rw [readChar?, hletter, Option.map_some]
    -- no character is written with the letter that announces digits
    rintro _ _ _ _ _ rfl
    cases hletter
  · rw [hescape]
    show (hexValue? [h₁, h₂, h₃, h₄]).map _ = _
    rw [hvalue, Option.map_some, Char.ofNat_toNat]
    rfl
  · rw [hescape, List.singleton_append, readChar?]
    · exact fun _ _ _ _ _ hc => absurd hc hbackslash
    · exact fun _ _ hc => absurd hc hbackslash
    · exact fun hc => absurd hc hbackslash

theorem head?_escape_ne (c : Char) (rest : List Char) : (escape c ++ rest).head? ≠ some '"' := by
  rcases escape_cases c with ⟨letter, hescape, _⟩ | ⟨_, _, _, _, hescape, _⟩ | ⟨hescape, hquote, _⟩
  · simp [hescape]
  · simp [hescape]
  · simp [hescape, hquote]

theorem unquote?_escape (c : Char) (rest : List Char) :
    unquote? (escape c ++ rest) = (unquote? rest).map fun x => (c :: x.1, x.2) := by
  rw [unquote?, if_neg (head?_escape_ne c rest)]
  split <;> rename_i hchar <;> rw [readChar?_escape] at hchar <;> cases hchar
  rfl

theorem unquote?_escaped (content rest : List Char) :
    unquote? (content.flatMap escape ++ '"' :: rest) = some (content, rest) := by
  induction content with
  | nil =>
      rw [unquote?]
      rfl
  | cons c content ih =>
      rw [List.flatMap_cons, List.append_assoc, unquote?_escape, ih, Option.map_some]

/-!
## Signs of a text
-/

def isBlank (c : Char) : Bool :=
  c = ' ' || c = '\n' || c = '\r' || c = '\t'

def Sign.ofChar? : Char → Option Sign
  | '[' => some .openList
  | ']' => some .closeList
  | '\x7b' => some .openRecord
  | '\x7d' => some .closeRecord
  | ',' => some .comma
  | ':' => some .colon
  | _ => none

theorem length_dropWhile_digit_lt {c : Char} (cs : List Char) (h : c.isDigit = true) :
    ((c :: cs).dropWhile Char.isDigit).length < (c :: cs).length := by
  rw [List.dropWhile_cons_of_pos h]
  exact Nat.lt_succ_of_le (List.length_dropWhile_le _ _)

def scan? : List Char → Option (List Sign)
  | [] => some []
  | c :: cs =>
      if isBlank c then scan? cs
      else if c = '"' then
        match _h : unquote? cs with
        | none => none
        | some (content, rest) => (scan? rest).map (.text (String.ofList content) :: ·)
      else if _h : c.isDigit = true then
        let digits := (c :: cs).takeWhile Char.isDigit
        (scan? ((c :: cs).dropWhile Char.isDigit)).map (.count (Text.digitsValue digits) :: ·)
      else (Sign.ofChar? c).bind fun sign => (scan? cs).map (sign :: ·)
termination_by cs => cs.length
decreasing_by
  · exact Nat.lt_succ_self _
  · exact Nat.lt_succ_of_lt (length_lt_of_unquote? (by assumption))
  · exact length_dropWhile_digit_lt cs (by assumption)
  · exact Nat.lt_succ_self _

def EndsCount (rest : List Char) : Prop :=
  ∀ c ∈ rest.head?, c.isDigit = false

theorem isBlank_newLine (level : Nat) : ∀ c ∈ newLine level, isBlank c = true := by
  intro c hc
  rw [newLine, List.mem_cons, List.mem_replicate] at hc
  rcases hc with rfl | ⟨_, rfl⟩ <;> rfl

theorem scan?_blank {c : Char} (cs : List Char) (h : isBlank c = true) :
    scan? (c :: cs) = scan? cs := by
  rw [scan?, if_pos h]

theorem scan?_text (content : String) (cs : List Char) :
    scan? (quote content ++ cs) = (scan? cs).map (.text content :: ·) := by
  have hquoted : quote content ++ cs = '"' :: (content.toList.flatMap escape ++ '"' :: cs) := by
    simp [quote]
  rw [hquoted, scan?, if_neg (by decide), if_pos rfl]
  split <;> rename_i hunquote <;> rw [unquote?_escaped] at hunquote <;> cases hunquote
  rw [String.ofList_toList]

theorem ofChar?_class {c : Char} {sign : Sign} (h : Sign.ofChar? c = some sign) :
    isBlank c = false ∧ c ≠ '"' ∧ c.isDigit = false := by
  unfold Sign.ofChar? at h
  split at h
  case h_7 => cases h
  all_goals decide

theorem scan?_mark {c : Char} {sign : Sign} (cs : List Char) (h : Sign.ofChar? c = some sign) :
    scan? (c :: cs) = (scan? cs).map (sign :: ·) := by
  rcases ofChar?_class h with ⟨hblank, hquote, hdigit⟩
  rw [scan?, hblank, if_neg (by decide), if_neg hquote, dif_neg (by simp [hdigit]), h,
    Option.bind_some]

theorem isDigit_of_isBlank {c : Char} (h : isBlank c = true) : c.isDigit = false := by
  simp only [isBlank, Bool.or_eq_true, decide_eq_true_eq] at h
  rcases h with ((rfl | rfl) | rfl) | rfl <;> rfl

theorem endsCount_mark {c : Char} {sign : Sign} (h : Sign.ofChar? c = some sign)
    (cs : List Char) : EndsCount (c :: cs) := by
  intro d hd
  cases hd
  exact (ofChar?_class h).2.2

theorem endsCount_blanks {gap cs : List Char} (hgap : ∀ c ∈ gap, isBlank c = true)
    (h : EndsCount cs) : EndsCount (gap ++ cs) := by
  cases gap with
  | nil => exact h
  | cons c gap =>
      intro d hd
      cases hd
      exact isDigit_of_isBlank (hgap c List.mem_cons_self)

theorem scan?_count (n : Nat) {cs : List Char} (h : EndsCount cs) :
    scan? (Nat.toDigits 10 n ++ cs) = (scan? cs).map (.count n :: ·) := by
  have hdigits : ∀ c ∈ Nat.toDigits 10 n, c.isDigit = true := fun c hc =>
    Nat.isDigit_of_mem_toDigits (by decide) (by decide) hc
  have hvalue : Text.digitsValue (Nat.toDigits 10 n) = n := Nat.ofDigitChars_ten_toDigits
  rcases Scan.takeWhile_eq_of_ends hdigits h with ⟨htake, hdrop⟩
  rcases List.exists_cons_of_ne_nil (@Nat.toDigits_ne_nil n 10) with ⟨d, ds, hds⟩
  have hd : d.isDigit = true := hdigits d (by rw [hds]; exact List.mem_cons_self)
  have hblank : ¬ isBlank d = true := by
    intro hblank
    rw [isDigit_of_isBlank hblank] at hd
    cases hd
  have hquote : d ≠ '"' := by
    rintro rfl
    cases hd
  rw [hds, List.cons_append] at htake hdrop ⊢
  rw [scan?, if_neg hblank, if_neg hquote, dif_pos hd]
  simp only [htake, hdrop]
  rw [← hds, hvalue]

/-!
## Spellings of signs
-/

/-- A text spells signs wherever it stands, before anything that does not continue it. -/
def Spells (signs : List Sign) (cs : List Char) : Prop :=
  ∀ rest, EndsCount rest → scan? (cs ++ rest) = (scan? rest).map (signs ++ ·)

namespace Spells

variable {x y : List Sign} {a b : List Char}

theorem scan?_eq (h : Spells x a) : scan? a = some x := by
  have hends : EndsCount [] := by simp [EndsCount]
  have hscan := h [] hends
  rw [List.append_nil, scan?] at hscan
  rw [hscan, Option.map_some, List.append_nil]

theorem nil : Spells [] [] := by
  intro rest _
  simp

theorem text (content : String) : Spells [.text content] (quote content) := by
  intro rest _
  rw [scan?_text]
  rfl

theorem count (n : Nat) : Spells [.count n] (Nat.toDigits 10 n) := by
  intro rest hrest
  rw [scan?_count n hrest]
  rfl

theorem append (ha : Spells x a) (hb : Spells y b) (hends : EndsCount b) :
    Spells (x ++ y) (a ++ b) := by
  intro rest hrest
  have hmiddle : EndsCount (b ++ rest) := by
    cases b with
    | nil => exact hrest
    | cons c b => exact hends
  rw [List.append_assoc, ha _ hmiddle, hb _ hrest, Option.map_map]
  simp only [Function.comp_def, List.append_assoc]

theorem mark {c : Char} {sign : Sign} (hsign : Sign.ofChar? c = some sign) (h : Spells x a) :
    Spells (sign :: x) (c :: a) := by
  intro rest hrest
  rw [List.cons_append, scan?_mark _ hsign, h _ hrest, Option.map_map]
  rfl

theorem blanks {gap : List Char} (hgap : ∀ c ∈ gap, isBlank c = true) (h : Spells x a) :
    Spells x (gap ++ a) := by
  induction gap with
  | nil => exact h
  | cons c gap ih =>
      rw [List.forall_mem_cons] at hgap
      intro rest hrest
      rw [List.cons_append, List.cons_append, scan?_blank _ hgap.1]
      exact ih hgap.2 rest hrest

/-- Parts with commas between them, and blanks behind the commas. -/
theorem separated (gap : List Char) (hgap : ∀ c ∈ gap, isBlank c = true)
    {xs : List (List Sign)} {parts : List (List Char)} (h : List.Forall₂ Spells xs parts) :
    Spells (List.intercalate [.comma] xs) (List.intercalate (',' :: gap) parts) := by
  induction h with
  | nil => exact nil
  | @cons x part xs parts hpart hparts ih =>
      cases hparts with
      | nil => simpa using hpart
      | cons hnext hmore =>
          rw [List.intercalate_cons_cons, List.intercalate_cons_cons, List.append_assoc,
            List.append_assoc]
          exact append hpart (mark rfl (blanks hgap ih)) (endsCount_mark rfl _)

theorem closed {c : Char} {sign : Sign} (hsign : Sign.ofChar? c = some sign) (gap : List Char)
    (hgap : ∀ c ∈ gap, isBlank c = true) (h : Spells x a) :
    Spells (x ++ [sign]) (a ++ (gap ++ [c])) :=
  append h (blanks hgap (mark hsign nil)) (endsCount_blanks hgap (endsCount_mark hsign []))

end Spells

/-!
## Written values
-/

mutual
def signs : Json → List Sign
  | .text s => [.text s]
  | .count n => [.count n]
  | .list items => .openList :: (List.intercalate [.comma] (itemSigns items) ++ [.closeList])
  | .record fields =>
      .openRecord :: (List.intercalate [.comma] (fieldSigns fields) ++ [.closeRecord])

def itemSigns : List Json → List (List Sign)
  | [] => []
  | j :: js => signs j :: itemSigns js

def fieldSigns : List (String × Json) → List (List Sign)
  | [] => []
  | (key, j) :: fs => (.text key :: .colon :: signs j) :: fieldSigns fs
end

namespace Spells

variable {xs : List (List Sign)} {parts : List (List Char)} {opening closing : Char}
  {first last : Sign}

theorem enclose (hopening : Sign.ofChar? opening = some first)
    (hclosing : Sign.ofChar? closing = some last) (h : List.Forall₂ Spells xs parts) :
    Spells (first :: (List.intercalate [.comma] xs ++ [last]))
      (Json.enclose opening closing parts) := by
  have hinner : Spells (List.intercalate [.comma] xs) (List.intercalate [','] parts) :=
    separated [] (by simp) h
  exact mark hopening (closed hclosing [] (by simp) hinner)

theorem encloseLines (hopening : Sign.ofChar? opening = some first)
    (hclosing : Sign.ofChar? closing = some last) (level : Nat)
    (h : List.Forall₂ Spells xs parts) :
    Spells (first :: (List.intercalate [.comma] xs ++ [last]))
      (Json.encloseLines opening closing level parts) := by
  cases h with
  | nil => exact mark hopening (mark hclosing nil)
  | @cons x part xs parts hpart hparts =>
      have hinner := separated _ (isBlank_newLine (level + 1)) (.cons hpart hparts)
      have hclosed := closed hclosing _ (isBlank_newLine level) hinner
      have hall := mark hopening (blanks (isBlank_newLine (level + 1)) hclosed)
      rw [Json.encloseLines]
      · simpa using hall
      · simp

/-- A field is a key, a colon, perhaps a blank, and a value. -/
theorem field (gap : List Char) (hgap : ∀ c ∈ gap, isBlank c = true) (key : String)
    {x : List Sign} {a : List Char} (h : Spells x a) :
    Spells (.text key :: .colon :: x) (quote key ++ ':' :: (gap ++ a)) :=
  append (text key) (mark rfl (blanks hgap h)) (endsCount_mark rfl _)

end Spells

mutual
theorem spells_compact : ∀ j : Json, Spells j.signs j.compact
  | .text s => by
      rw [signs, compact]
      exact .text s
  | .count n => by
      rw [signs, compact]
      exact .count n
  | .list items => by
      rw [signs, compact]
      exact .enclose rfl rfl (spells_compactItems items)
  | .record fields => by
      rw [signs, compact]
      exact .enclose rfl rfl (spells_compactFields fields)

theorem spells_compactItems : ∀ items : List Json,
    List.Forall₂ Spells (itemSigns items) (compactItems items)
  | [] => .nil
  | j :: js => .cons (spells_compact j) (spells_compactItems js)

theorem spells_compactFields : ∀ fields : List (String × Json),
    List.Forall₂ Spells (fieldSigns fields) (compactFields fields)
  | [] => .nil
  | (key, j) :: fs =>
      .cons (.field [] (by simp) key (spells_compact j)) (spells_compactFields fs)
end

mutual
theorem spells_spread : ∀ (level : Nat) (j : Json), Spells j.signs (j.spread level)
  | level, .text s => by
      rw [signs, spread]
      exact .text s
  | level, .count n => by
      rw [signs, spread]
      exact .count n
  | level, .list items => by
      rw [signs, spread]
      exact .encloseLines rfl rfl level (spells_spreadItems (level + 1) items)
  | level, .record fields => by
      rw [signs, spread]
      exact .encloseLines rfl rfl level (spells_spreadFields (level + 1) fields)

theorem spells_spreadItems : ∀ (level : Nat) (items : List Json),
    List.Forall₂ Spells (itemSigns items) (spreadItems level items)
  | _, [] => .nil
  | level, j :: js => .cons (spells_spread level j) (spells_spreadItems level js)

theorem spells_spreadFields : ∀ (level : Nat) (fields : List (String × Json)),
    List.Forall₂ Spells (fieldSigns fields) (spreadFields level fields)
  | _, [] => .nil
  | level, (key, j) :: fs => by
      rw [fieldSigns, spreadFields, List.append_assoc]
      exact .cons (.field [' '] (by simp [isBlank]) key (spells_spread level j))
        (spells_spreadFields level fs)
end

/-!
## Values of signs
-/

/-- A list or record that is not closed yet, with what it holds so far, the last first. -/
inductive Frame where
  | items (done : List Json)
  /-- A record that waits for the value of `key`. -/
  | fields (done : List (String × Json)) (key : String)

mutual
/-- Builds the value that signs begin with, inside of open frames, and goes on behind it. -/
def build? : List Frame → List Sign → Option Json
  | frames, .text s :: rest => resume? (.text s) frames rest
  | frames, .count n :: rest => resume? (.count n) frames rest
  | frames, .openList :: rest => build? (.items [] :: frames) rest
  | .items [] :: frames, .closeList :: rest => resume? (.list []) frames rest
  | frames, .openRecord :: rest => buildField? [] frames rest
  | _, _ => none

def buildField? : List (String × Json) → List Frame → List Sign → Option Json
  | done, frames, .text key :: .colon :: rest => build? (.fields done key :: frames) rest
  | [], frames, .closeRecord :: rest => resume? (.record []) frames rest
  | _, _, _ => none

def resume? (j : Json) : List Frame → List Sign → Option Json
  | [], [] => some j
  | .items done :: frames, .comma :: rest => build? (.items (j :: done) :: frames) rest
  | .items done :: frames, .closeList :: rest =>
      resume? (.list (j :: done).reverse) frames rest
  | .fields done key :: frames, .comma :: rest => buildField? ((key, j) :: done) frames rest
  | .fields done key :: frames, .closeRecord :: rest =>
      resume? (.record ((key, j) :: done).reverse) frames rest
  | _, _ => none
end

mutual
theorem build?_signs : ∀ (j : Json) (frames : List Frame) (rest : List Sign),
    build? frames (j.signs ++ rest) = resume? j frames rest
  | .text s, frames, rest => by
      rw [signs, List.singleton_append, build?]
  | .count n, frames, rest => by
      rw [signs, List.singleton_append, build?]
  | .list [], frames, rest => by
      show build? frames (.openList :: .closeList :: rest) = _
      rw [build?, build?]
  | .list (j :: js), frames, rest => by
      rw [signs, List.cons_append, List.append_assoc, List.singleton_append, build?]
      exact build?_itemSigns (j :: js) [] frames rest (by simp)
  | .record [], frames, rest => by
      show build? frames (.openRecord :: .closeRecord :: rest) = _
      rw [build?, buildField?]
  | .record (f :: fs), frames, rest => by
      rw [signs, List.cons_append, List.append_assoc, List.singleton_append, build?]
      exact buildField?_fieldSigns (f :: fs) [] frames rest (by simp)

theorem build?_itemSigns : ∀ (items done : List Json) (frames : List Frame) (rest : List Sign),
    items ≠ [] →
      build? (.items done :: frames)
          (List.intercalate [.comma] (itemSigns items) ++ .closeList :: rest) =
        resume? (.list (done.reverse ++ items)) frames rest
  | [], _, _, _, h => absurd rfl h
  | [j], done, frames, rest, _ => by
      rw [itemSigns, itemSigns, List.intercalate_singleton, build?_signs j, resume?,
        List.reverse_cons]
  | j :: j' :: js, done, frames, rest, _ => by
      rw [itemSigns, itemSigns, List.intercalate_cons_cons, ← itemSigns, List.append_assoc,
        List.append_assoc, build?_signs j, List.singleton_append, resume?,
        build?_itemSigns (j' :: js) _ _ _ (by simp), List.reverse_cons, List.append_assoc]
      rfl

theorem buildField?_fieldSigns : ∀ (fields done : List (String × Json)) (frames : List Frame)
    (rest : List Sign), fields ≠ [] →
      buildField? done frames
          (List.intercalate [.comma] (fieldSigns fields) ++ .closeRecord :: rest) =
        resume? (.record (done.reverse ++ fields)) frames rest
  | [], _, _, _, h => absurd rfl h
  | [(key, j)], done, frames, rest, _ => by
      rw [fieldSigns, fieldSigns, List.intercalate_singleton, List.cons_append, List.cons_append,
        buildField?, build?_signs j, resume?, List.reverse_cons]
  | (key, j) :: (key', j') :: fs, done, frames, rest, _ => by
      rw [fieldSigns, fieldSigns, List.intercalate_cons_cons, ← fieldSigns, List.append_assoc,
        List.append_assoc, List.cons_append, List.cons_append, buildField?, build?_signs j,
        List.singleton_append, resume?, buildField?_fieldSigns ((key', j') :: fs) _ _ _ (by simp),
        List.reverse_cons, List.append_assoc]
      rfl
end

/-!
## Values of a text
-/

def read? (cs : List Char) : Option Json :=
  (scan? cs).bind (build? [])

theorem Spells.read?_eq {j : Json} {cs : List Char} (h : Spells j.signs cs) : read? cs = some j := by
  have hbuild := build?_signs j [] []
  rw [List.append_nil, resume?] at hbuild
  rw [read?, h.scan?_eq, Option.bind_some, hbuild]

theorem read?_compact (j : Json) : read? j.compact = some j :=
  (spells_compact j).read?_eq

theorem read?_spread (level : Nat) (j : Json) : read? (j.spread level) = some j :=
  (spells_spread level j).read?_eq

end Json
end PascalUnit
