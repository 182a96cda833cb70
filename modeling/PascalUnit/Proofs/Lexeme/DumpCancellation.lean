import Mathlib.Data.List.Nodup
import PascalUnit.Lexeme.Dump
import PascalUnit.Proofs.Lexeme.Respelling

/-!
# The dump determines the tokens

A dump writes the texts of words unescaped between angle brackets, and a literal may
hold brackets, colons and whatever else imitates an entry.  The entries can be told
apart all the same.  The label of a token ends at the first colon or closing bracket,
and labels tell tokens apart; behind the colon, the text of a word ends where the scan
of lexemes would end it, since a closing bracket continues no word.

## Cancellation

Two dumps that agree, whatever stands behind them, begin with entries for the same
token, and show the same text when the token is a word.
-/

namespace PascalUnit

/-- A dump shows two lexemes alike: they have one kind, and one text if they are words. -/
structure Lexeme.ShownAlike (x y : Lexeme) : Prop where
  token : x.token = y.token
  text : x.token.isWord = true → x.text = y.text

namespace Dump

/-- A word has a text of its kind; the texts of other tokens are not shown. -/
def Showable (token : Token) (text : String) : Prop :=
  token.isWord = true → Scan.Spells token text.toList

/-!
## Labels
-/

def isLabelPart (c : Char) : Bool :=
  decide (c ≠ ':' ∧ c ≠ '>')

theorem isLabelPart_label (token : Token) : token.label.toList.all isLabelPart = true := by
  cases token with
  | keyword w => cases w <;> rfl
  | builtin b => cases b <;> rfl
  | mark m => cases m <;> rfl
  | ident | number | literal | comment | endOfInput => rfl

theorem nodup_labels : (Token.all.map fun token => token.label.toList).Nodup := by
  decide

theorem label_cancel {a b : Token} {u v : List Char} (hu : ∀ c ∈ u.head?, isLabelPart c = false)
    (hv : ∀ c ∈ v.head?, isLabelPart c = false)
    (h : a.label.toList ++ u = b.label.toList ++ v) : a = b ∧ u = v := by
  rcases Scan.takeWhile_eq_of_ends (List.all_eq_true.mp (isLabelPart_label a)) hu with
    ⟨htake, hdrop⟩
  rcases Scan.takeWhile_eq_of_ends (List.all_eq_true.mp (isLabelPart_label b)) hv with
    ⟨htake', hdrop'⟩
  rw [h] at htake hdrop
  have hlabel : a.label.toList = b.label.toList := htake.symm.trans htake'
  refine ⟨?_, hdrop.symm.trans hdrop'⟩
  exact List.inj_on_of_nodup_map nodup_labels (Token.mem_all a) (Token.mem_all b) hlabel

/-!
## Entries
-/

def shownText (token : Token) (text : String) : List Char :=
  if token.isWord then ':' :: text.toList ++ ['>'] else ['>']

theorem entry_eq (token : Token) (text : String) :
    entry token text = '<' :: (token.label.toList ++ shownText token text) := by
  cases hword : token.isWord with
  | true => simp [entry, shownText, hword]
  | false => simp [entry, shownText, hword]

theorem shownText_ends_label (token : Token) (text : String) (rest : List Char) :
    ∀ c ∈ (shownText token text ++ rest).head?, isLabelPart c = false := by
  intro c hc
  cases hword : token.isWord with
  | true =>
      rw [shownText, if_pos hword] at hc
      cases hc
      rfl
  | false =>
      rw [shownText, if_neg (by simp [hword])] at hc
      cases hc
      rfl

/-- The text of a word ends at the bracket that closes its entry, whatever it holds. -/
theorem word_cancel {token : Token} {s s' : List Char} (hs : Scan.Spells token s)
    (hs' : Scan.Spells token s') {u v : List Char} (h : s ++ '>' :: u = s' ++ '>' :: v) :
    s = s' ∧ u = v := by
  have hends : ∀ rest, Scan.EndsBefore token ('>' :: rest) :=
    Scan.endsBefore_of_head (by decide) (by decide) (by decide) (by decide) token
  have hfront := Scan.front_eq_lexeme_iff.mpr ⟨rfl, hs, hends u⟩
  rw [h, Scan.front_eq_lexeme_iff.mpr ⟨rfl, hs', hends v⟩] at hfront
  injection hfront with _ htext hrest
  exact ⟨htext.symm, (List.tail_eq_of_cons_eq hrest).symm⟩

theorem shownText_cancel {token : Token} {s s' : String} (hs : Showable token s)
    (hs' : Showable token s') {u v : List Char}
    (h : shownText token s ++ u = shownText token s' ++ v) :
    (token.isWord = true → s = s') ∧ u = v := by
  cases hword : token.isWord with
  | true =>
      rw [shownText, shownText, if_pos hword, if_pos hword] at h
      have htexts : s.toList ++ '>' :: u = s'.toList ++ '>' :: v := by
        have htail := List.tail_eq_of_cons_eq h
        simpa using htail
      rcases word_cancel (hs hword) (hs' hword) htexts with ⟨htext, hrest⟩
      exact ⟨fun _ => String.toList_inj.mp htext, hrest⟩
  | false =>
      rw [shownText, shownText, if_neg (by simp [hword]), if_neg (by simp [hword])] at h
      refine ⟨?_, List.tail_eq_of_cons_eq h⟩
      intro hcontra
      cases hcontra

theorem entry_cancel {a b : Token} {s s' : String} (hs : Showable a s) (hs' : Showable b s')
    {u v : List Char} (h : entry a s ++ u = entry b s' ++ v) :
    a = b ∧ (a.isWord = true → s = s') ∧ u = v := by
  have hlabels : a.label.toList ++ (shownText a s ++ u) =
      b.label.toList ++ (shownText b s' ++ v) := by
    rw [entry_eq, entry_eq] at h
    have htail := List.tail_eq_of_cons_eq h
    simpa using htail
  rcases label_cancel (shownText_ends_label a s u) (shownText_ends_label b s' v) hlabels with
    ⟨rfl, hshown⟩
  exact ⟨rfl, shownText_cancel hs hs' hshown⟩

theorem line_eq (token : Token) (text : String) :
    line token text = entry token text ++ if endsLine token then ['\n'] else [] := by
  cases hends : endsLine token with
  | true => simp [line, hends]
  | false => simp [line, hends]

theorem line_cancel {a b : Token} {s s' : String} (hs : Showable a s) (hs' : Showable b s')
    {u v : List Char} (h : line a s ++ u = line b s' ++ v) :
    a = b ∧ (a.isWord = true → s = s') ∧ u = v := by
  rw [line_eq, line_eq, List.append_assoc, List.append_assoc] at h
  rcases entry_cancel hs hs' h with ⟨rfl, htext, hrest⟩
  exact ⟨rfl, htext, List.append_cancel_left hrest⟩

theorem line_ne_nil (token : Token) (text : String) : line token text ≠ [] := by
  simp [line_eq, entry_eq]

theorem line_congr {x y : Lexeme} (h : x.ShownAlike y) :
    line x.token x.text = line y.token y.text := by
  rw [line_eq, line_eq, entry_eq, entry_eq, ← h.token]
  cases hword : x.token.isWord with
  | true => rw [h.text hword]
  | false => simp [shownText, hword]

/-!
## Rows
-/

theorem dump_eq (xs : List Lexeme) :
    dump xs = String.ofList (xs.flatMap fun x => line x.token x.text) := by
  rw [dump, render, List.flatMap_map]

theorem shownAlike_of_flatMap_line {xs ys : List Lexeme}
    (hxs : ∀ x ∈ xs, Showable x.token x.text) (hys : ∀ y ∈ ys, Showable y.token y.text)
    (h : (xs.flatMap fun x => line x.token x.text) = ys.flatMap fun y => line y.token y.text) :
    List.Forall₂ Lexeme.ShownAlike xs ys := by
  induction xs generalizing ys with
  | nil =>
      cases ys with
      | nil => exact .nil
      | cons y ys =>
          rw [List.flatMap_nil, List.flatMap_cons] at h
          exact absurd (List.append_eq_nil_iff.mp h.symm).1 (line_ne_nil _ _)
  | cons x xs ih =>
      cases ys with
      | nil =>
          rw [List.flatMap_nil, List.flatMap_cons] at h
          exact absurd (List.append_eq_nil_iff.mp h).1 (line_ne_nil _ _)
      | cons y ys =>
          rw [List.forall_mem_cons] at hxs hys
          rw [List.flatMap_cons, List.flatMap_cons] at h
          rcases line_cancel hxs.1 hys.1 h with ⟨htoken, htext, hrest⟩
          exact .cons ⟨htoken, htext⟩ (ih hxs.2 hys.2 hrest)

theorem flatMap_line_congr {xs ys : List Lexeme} (h : List.Forall₂ Lexeme.ShownAlike xs ys) :
    (xs.flatMap fun x => line x.token x.text) = ys.flatMap fun y => line y.token y.text := by
  induction h with
  | nil => rfl
  | cons hxy _ ih => rw [List.flatMap_cons, List.flatMap_cons, line_congr hxy, ih]

end Dump

/-!
## Lexemes of a source
-/

theorem showable_of_lexemes {cs : List Char} {xs : List Lexeme} (h : lexemes cs = .ok xs) :
    ∀ x ∈ xs, Dump.Showable x.token x.text := by
  rcases lexemes_eq_ok_iff.mp h with ⟨entries, htiling, rfl⟩
  rw [List.map_append, List.forall_mem_append]
  constructor
  · intro x hx _
    exact htiling.spells_toLexeme _ x hx
  · intro x hx hword
    -- the end of input is no word
    rw [List.map_singleton, List.mem_singleton] at hx
    rw [hx] at hword
    cases hword

/-- The dumps of two sources agree exactly when their lexemes are shown alike. -/
theorem dump_determines_tokens {cs cs' : List Char} {xs ys : List Lexeme}
    (hxs : lexemes cs = .ok xs) (hys : lexemes cs' = .ok ys) :
    dump xs = dump ys ↔ List.Forall₂ Lexeme.ShownAlike xs ys := by
  rw [Dump.dump_eq, Dump.dump_eq, String.ofList_inj]
  constructor
  · exact Dump.shownAlike_of_flatMap_line (showable_of_lexemes hxs) (showable_of_lexemes hys)
  · exact Dump.flatMap_line_congr

/-- The lexemes of `Unit'a><ident:b'` -/
def imitating : List Lexeme :=
  [⟨.keyword .unit, "Unit", ⟨0, 4⟩, ⟨1, 1⟩⟩, ⟨.literal, "'a><ident:b'", ⟨4, 16⟩, ⟨1, 5⟩⟩,
    ⟨.endOfInput, "", ⟨16, 16⟩, ⟨1, 17⟩⟩]

/-- The lexemes of `UNIT 'a><ident:b'` -/
def imitatingApart : List Lexeme :=
  [⟨.keyword .unit, "UNIT", ⟨0, 4⟩, ⟨1, 1⟩⟩, ⟨.literal, "'a><ident:b'", ⟨5, 17⟩, ⟨1, 6⟩⟩,
    ⟨.endOfInput, "", ⟨17, 17⟩, ⟨1, 18⟩⟩]

theorem dump_determines_tokens_imitating :
    lexemes "Unit'a><ident:b'".toList = .ok imitating ∧
      lexemes "UNIT 'a><ident:b'".toList = .ok imitatingApart ∧
      dump imitating = "<unit><string-literal:'a><ident:b'><end-of-input>\n" ∧
      dump imitating = dump imitatingApart ∧
      List.Forall₂ Lexeme.ShownAlike imitating imitatingApart := by
  have hlexemes : lexemes "Unit'a><ident:b'".toList = .ok imitating := by decide +kernel
  have hapart : lexemes "UNIT 'a><ident:b'".toList = .ok imitatingApart := by decide +kernel
  have hdump : dump imitating = dump imitatingApart := by decide +kernel
  refine ⟨hlexemes, hapart, by decide +kernel, hdump, ?_⟩
  exact (dump_determines_tokens hlexemes hapart).mp hdump

end PascalUnit
