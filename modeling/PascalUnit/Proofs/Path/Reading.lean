import Mathlib.Data.List.Forall2
import Mathlib.Data.List.Induction
import Mathlib.Data.Nat.Digits.Defs
import PascalUnit.Proofs.Path.Printing

/-!
# Which texts are paths

A text is a path when it begins with a slash and every piece between its slashes is
the name of a rule, with or without a number in brackets.  `Segment.Written` says so
for one piece, and `Segment.Faulty` says what is wrong with any other one, the first
thing first.  Neither refers to how a piece is read.

## Reading decides

Every piece is written or faulty, reading gives the segment of a written piece and
the error of a faulty one, so it gives nothing else.  The same holds for a row of
pieces, where the first faulty one counts.
-/

namespace PascalUnit

/-!
## Numbers
-/

namespace Text

/-- A decimal number of at most 64 bits, which may carry a plus sign. -/
def Denotes (cs : List Char) (n : Nat) : Prop :=
  ∃ digits, (cs = digits ∨ cs = '+' :: digits) ∧ digits ≠ [] ∧
    (∀ c ∈ digits, '0' ≤ c ∧ c ≤ '9') ∧
    n = Nat.ofDigits 10 (digits.reverse.map fun c => c.toNat - '0'.toNat) ∧
    n ≤ 2 ^ 64 - 1

theorem isDigit_iff {c : Char} : c.isDigit = true ↔ '0' ≤ c ∧ c ≤ '9' := by
  show (decide ('0' ≤ c) && decide (c ≤ '9')) = true ↔ _
  rw [Bool.and_eq_true, decide_eq_true_eq, decide_eq_true_eq]

theorem isDigits_iff {cs : List Char} :
    isDigits cs = true ↔ cs ≠ [] ∧ ∀ c ∈ cs, '0' ≤ c ∧ c ≤ '9' := by
  simp only [isDigits, Bool.and_eq_true, Bool.not_eq_true', List.isEmpty_eq_false_iff,
    List.all_eq_true, isDigit_iff, ne_eq]

theorem digitsValue_eq_ofDigits (digits : List Char) :
    digitsValue digits =
      Nat.ofDigits 10 (digits.reverse.map fun c => c.toNat - '0'.toNat) := by
  induction digits using List.reverseRecOn with
  | nil => rfl
  | append_singleton digits c ih =>
      rw [digitsValue] at ih ⊢
      rw [Nat.ofDigitChars_append, Nat.ofDigitChars_cons, Nat.ofDigitChars_nil, ih,
        List.reverse_append, List.reverse_singleton, List.singleton_append, List.map_cons,
        Nat.ofDigits_cons, Nat.add_comm]

theorem eq_dropPlus (cs : List Char) : cs = dropPlus cs ∨ cs = '+' :: dropPlus cs := by
  unfold dropPlus
  split
  · exact Or.inr rfl
  · exact Or.inl rfl

theorem readCount?_eq_some_iff {cs : List Char} {n : Nat} :
    readCount? cs = some n ↔ Denotes cs n := by
  have hlimit (m : Nat) : m < countLimit ↔ m ≤ 2 ^ 64 - 1 := by
    rw [countLimit]
    omega
  constructor
  · intro h
    simp only [readCount?, Bool.and_eq_true, decide_eq_true_eq, hlimit] at h
    split at h
    · rename_i hcount
      cases h
      have hdigits := isDigits_iff.mp hcount.1
      exact ⟨dropPlus cs, eq_dropPlus cs, hdigits.1, hdigits.2,
        digitsValue_eq_ofDigits _, hcount.2⟩
    · cases h
  · intro h
    rcases h with ⟨digits, hcs, hne, hdigits, hvalue, hle⟩
    have hdrop : dropPlus cs = digits := by
      cases hcs with
      | inl hcs =>
          rw [hcs]
          exact dropPlus_of_isDigit fun c hc => isDigit_iff.mpr (hdigits c hc)
      | inr hcs =>
          rw [hcs]
          rfl
    rw [← digitsValue_eq_ofDigits] at hvalue
    have hcount : digitsValue digits < countLimit := (hlimit _).mpr (hvalue ▸ hle)
    rw [readCount?, hdrop]
    simp only [isDigits_iff.mpr ⟨hne, hdigits⟩, hcount, decide_true, Bool.and_true, if_true,
      hvalue]

/-!
## Names
-/

def NameLetter (c : Char) : Prop :=
  'A' ≤ c ∧ c ≤ 'Z' ∨ 'a' ≤ c ∧ c ≤ 'z' ∨ c = '_'

/-- A letter or underscore, and behind it letters, digits and underscores. -/
def NameShaped (cs : List Char) : Prop :=
  ∃ c rest, cs = c :: rest ∧ NameLetter c ∧ ∀ d ∈ rest, NameLetter d ∨ '0' ≤ d ∧ d ≤ '9'

theorem isNameStart_iff {c : Char} : isNameStart c = true ↔ NameLetter c := by
  show (decide ('A' ≤ c ∧ c ≤ 'Z') || (decide ('a' ≤ c) && decide (c ≤ 'z')) ||
    decide (c = '_')) = true ↔ _
  simp only [Bool.or_eq_true, Bool.and_eq_true, decide_eq_true_eq, or_assoc]
  exact Iff.rfl

theorem isNamePart_iff {c : Char} :
    isNamePart c = true ↔ NameLetter c ∨ '0' ≤ c ∧ c ≤ '9' := by
  rw [← isNameStart_iff, ← isDigit_iff]
  simp only [isNamePart, isNameStart, Char.isAlphanum, Bool.or_eq_true]
  exact or_right_comm

theorem isName_iff {cs : List Char} : isName cs = true ↔ NameShaped cs := by
  cases cs with
  | nil => simp [isName, NameShaped]
  | cons c rest =>
      simp only [isName, Bool.and_eq_true, List.all_eq_true, isNameStart_iff, isNamePart_iff]
      constructor
      · intro h
        exact ⟨c, rest, rfl, h.1, h.2⟩
      · intro h
        rcases h with ⟨_, _, heq, hfirst, hmore⟩
        cases heq
        exact ⟨hfirst, hmore⟩

end Text

/-!
## Segments
-/

namespace Segment

def BracketFree (cs : List Char) : Prop :=
  '[' ∉ cs ∧ ']' ∉ cs

/-- A name, or a name and behind it a text in brackets; there are no other brackets. -/
inductive Shaped : List Char → List Char → Option (List Char) → Prop where
  | bare {name : List Char} : BracketFree name → Shaped name name none
  | indexed {name index : List Char} :
      BracketFree name → BracketFree index →
        Shaped (name ++ '[' :: index ++ [']']) name (some index)

inductive Written : List Char → Segment → Prop where
  | bare {r : Rule} : r ∈ Rule.all → Written r.name.toList ⟨r, none⟩
  | indexed {r : Rule} {index : List Char} {n : Nat} :
      r ∈ Rule.all → Text.Denotes index n →
        Written (r.name.toList ++ '[' :: index ++ [']']) ⟨r, some n⟩

/-- The first thing that is wrong with a text that stands for a segment. -/
inductive Faulty (depth : Nat) : List Char → PathError → Prop where
  | empty : Faulty depth [] (.emptySegment depth)
  | shape {cs : List Char} :
      cs ≠ [] → (∀ name index, ¬ Shaped cs name index) →
        Faulty depth cs (.malformedIndex (String.ofList cs) depth)
  | name {cs name : List Char} {index : Option (List Char)} :
      cs ≠ [] → Shaped cs name index → ¬ Text.NameShaped name →
        Faulty depth cs (.invalidName (String.ofList name) depth)
  | rule {cs name : List Char} {index : Option (List Char)} :
      Shaped cs name index → Text.NameShaped name →
        (∀ r ∈ Rule.all, r.name.toList ≠ name) →
          Faulty depth cs (.unknownRule (String.ofList name) depth)
  | index {cs index : List Char} {r : Rule} :
      Shaped cs r.name.toList (some index) → (∀ n, ¬ Text.Denotes index n) →
        Faulty depth cs (.malformedIndex (String.ofList cs) depth)

theorem not_isBracket_iff {c : Char} : (!isBracket c) = true ↔ c ≠ '[' ∧ c ≠ ']' := by
  simp [isBracket]

theorem bracketFree_iff {cs : List Char} :
    BracketFree cs ↔ ∀ c ∈ cs, (!isBracket c) = true := by
  simp only [not_isBracket_iff]
  constructor
  · intro h c hc
    exact ⟨fun heq => h.1 (heq ▸ hc), fun heq => h.2 (heq ▸ hc)⟩
  · intro h
    exact ⟨fun hmem => (h _ hmem).1 rfl, fun hmem => (h _ hmem).2 rfl⟩

theorem bracketFree_takeWhile (cs : List Char) :
    BracketFree (cs.takeWhile fun c => !isBracket c) := by
  rw [bracketFree_iff]
  intro c hc
  exact List.mem_takeWhile_imp (p := fun c => !isBracket c) hc

theorem divide?_eq_some_iff {cs name : List Char} {index : Option (List Char)} :
    divide? cs = some (name, index) ↔ Shaped cs name index := by
  constructor
  · intro h
    have hcs := List.takeWhile_append_dropWhile (p := fun c => !isBracket c) (l := cs)
    have hname := bracketFree_takeWhile cs
    rw [divide?] at h
    split at h
    · rename_i hrest
      cases h
      rw [hrest, List.append_nil] at hcs
      rw [hcs] at hname ⊢
      exact .bare hname
    · rename_i rest hrest
      split at h
      · rename_i hclosing
        cases h
        have hindex := bracketFree_takeWhile rest
        have hsplit := List.takeWhile_append_dropWhile (p := fun c => !isBracket c) (l := rest)
        rw [hclosing] at hsplit
        rw [hrest, ← hsplit, ← List.cons_append, ← List.append_assoc] at hcs
        have hshaped := Shaped.indexed hname hindex
        rw [hcs] at hshaped
        exact hshaped
      · cases h
    · cases h
  · intro h
    cases h with
    | bare hname => exact divide?_bare (bracketFree_iff.mp hname)
    | indexed hname hindex =>
        exact divide?_indexed (bracketFree_iff.mp hname) (bracketFree_iff.mp hindex)

theorem divide?_eq_none_iff {cs : List Char} :
    divide? cs = none ↔ ∀ name index, ¬ Shaped cs name index := by
  simp only [← divide?_eq_some_iff, Option.eq_none_iff_forall_ne_some, Prod.forall]

/-!
## Reading a segment
-/

theorem bracketFree_of_denotes {index : List Char} {n : Nat} (h : Text.Denotes index n) :
    BracketFree index := by
  rcases h with ⟨digits, hindex, _, hdigits, _⟩
  have hfree : ∀ c ∈ digits, (!isBracket c) = true := by
    intro c hc
    exact not_isBracket_of_isDigit (Text.isDigit_iff.mpr (hdigits c hc))
  rw [bracketFree_iff]
  cases hindex with
  | inl hindex =>
      rw [hindex]
      exact hfree
  | inr hindex =>
      rw [hindex]
      exact List.forall_mem_cons.mpr ⟨rfl, hfree⟩

theorem shaped_of_written {cs : List Char} {s : Segment} (h : Written cs s) :
    ∃ index, Shaped cs s.rule.name.toList index ∧ readIndex? index = some s.index := by
  have hname (r : Rule) : BracketFree r.name.toList :=
    bracketFree_iff.mpr (not_isBracket_name r)
  cases h with
  | @bare r _ => exact ⟨none, .bare (hname r), rfl⟩
  | @indexed r index n _ hn =>
      refine ⟨some index, .indexed (hname r) (bracketFree_of_denotes hn), ?_⟩
      rw [readIndex?, Text.readCount?_eq_some_iff.mpr hn]
      rfl

theorem written_ne_nil {cs : List Char} {s : Segment} (h : Written cs s) : cs ≠ [] := by
  cases h with
  | @bare r _ =>
      intro hnil
      have hname := isName_name r
      rw [hnil] at hname
      cases hname
  | indexed => simp

theorem parse_of_written {cs : List Char} {s : Segment} (h : Written cs s) (depth : Nat) :
    parse depth cs = .ok s := by
  rcases shaped_of_written h with ⟨index, hshaped, hindex⟩
  rw [parse, divide?_eq_some_iff.mpr hshaped]
  simp [written_ne_nil h, isName_name, hindex]

theorem ne_nil_of_shaped {cs name : List Char} {index : Option (List Char)}
    (h : Shaped cs name index) (hname : name ≠ []) : cs ≠ [] := by
  cases h with
  | bare => exact hname
  | indexed => simp

theorem parse_of_faulty {depth : Nat} {cs : List Char} {e : PathError} (h : Faulty depth cs e) :
    parse depth cs = .error e := by
  have hne (name : List Char) (index : Option (List Char)) (hshaped : Shaped cs name index)
      (hname : Text.NameShaped name) : cs ≠ [] := by
    apply ne_nil_of_shaped hshaped
    rcases hname with ⟨c, rest, rfl, _⟩
    exact List.cons_ne_nil c rest
  cases h with
  | empty => rfl
  | shape hcs hshape =>
      rw [parse, divide?_eq_none_iff.mpr hshape]
      simp [hcs]
  | name hcs hshaped hname =>
      rw [← Text.isName_iff, Bool.not_eq_true] at hname
      rw [parse, divide?_eq_some_iff.mpr hshaped]
      simp [hcs, hname]
  | @rule _ name _ hshaped hname hrule =>
      have hunknown : Rule.ofName? (String.ofList name) = none := by
        rw [Option.eq_none_iff_forall_ne_some]
        intro r hr
        apply hrule r (Rule.mem_all r)
        rw [Rule.name_of_ofName? hr, String.toList_ofList]
      rw [parse, divide?_eq_some_iff.mpr hshaped]
      simp [hne _ _ hshaped hname, Text.isName_iff.mpr hname, hunknown]
  | @index _ index r hshaped hindex =>
      have hnone : Text.readCount? index = none := by
        rw [Option.eq_none_iff_forall_ne_some]
        intro n hn
        exact hindex n (Text.readCount?_eq_some_iff.mp hn)
      have hname := isName_name r
      rw [parse, divide?_eq_some_iff.mpr hshaped]
      simp [hne _ _ hshaped (Text.isName_iff.mp hname), hname, readIndex?, hnone]

theorem written_or_faulty (depth : Nat) (cs : List Char) :
    (∃ s, Written cs s) ∨ ∃ e, Faulty depth cs e := by
  by_cases hcs : cs = []
  · rw [hcs]
    exact Or.inr ⟨_, .empty⟩
  by_cases hshape : ∃ name index, Shaped cs name index
  case neg => exact Or.inr ⟨_, .shape hcs fun name index h => hshape ⟨name, index, h⟩⟩
  rcases hshape with ⟨name, index, hshaped⟩
  by_cases hname : Text.NameShaped name
  case neg => exact Or.inr ⟨_, .name hcs hshaped hname⟩
  by_cases hrule : ∃ r ∈ Rule.all, r.name.toList = name
  case neg => exact Or.inr ⟨_, .rule hshaped hname fun r hr heq => hrule ⟨r, hr, heq⟩⟩
  rcases hrule with ⟨r, hr, rfl⟩
  cases hshaped with
  | bare => exact Or.inl ⟨_, .bare hr⟩
  | @indexed _ index hfree hindex =>
      by_cases hcount : ∃ n, Text.Denotes index n
      · rcases hcount with ⟨n, hn⟩
        exact Or.inl ⟨_, .indexed hr hn⟩
      · exact Or.inr ⟨_, .index (.indexed hfree hindex) fun n hn => hcount ⟨n, hn⟩⟩

theorem parse_eq_ok_iff (depth : Nat) {cs : List Char} {s : Segment} :
    parse depth cs = .ok s ↔ Written cs s := by
  constructor
  · intro h
    cases written_or_faulty depth cs with
    | inl hwritten =>
        rcases hwritten with ⟨s', hs'⟩
        rw [parse_of_written hs'] at h
        cases h
        exact hs'
    | inr hfaulty =>
        rcases hfaulty with ⟨e, he⟩
        rw [parse_of_faulty he] at h
        cases h
  · intro h
    exact parse_of_written h depth

theorem parse_eq_error_iff {depth : Nat} {cs : List Char} {e : PathError} :
    parse depth cs = .error e ↔ Faulty depth cs e := by
  constructor
  · intro h
    cases written_or_faulty depth cs with
    | inl hwritten =>
        rcases hwritten with ⟨s, hs⟩
        rw [parse_of_written hs] at h
        cases h
    | inr hfaulty =>
        rcases hfaulty with ⟨e', he'⟩
        rw [parse_of_faulty he'] at h
        cases h
        exact he'
  · intro h
    exact parse_of_faulty h

theorem not_written_of_faulty {depth : Nat} {cs : List Char} {e : PathError}
    (h : Faulty depth cs e) (s : Segment) : ¬ Written cs s := by
  intro hs
  have hparse := parse_of_written hs depth
  rw [parse_of_faulty h] at hparse
  cases hparse

end Segment

/-!
## Reading a path
-/

namespace Path

theorem parseSegments_eq_ok_iff (depth : Nat) {texts : List (List Char)} {ss : List Segment} :
    parseSegments depth texts = .ok ss ↔ List.Forall₂ Segment.Written texts ss := by
  induction texts generalizing depth ss with
  | nil =>
      rw [parseSegments, List.forall₂_nil_left_iff, Except.ok.injEq]
      exact eq_comm
  | cons text texts ih =>
      rw [parseSegments, List.forall₂_cons_left_iff]
      simp only [← Segment.parse_eq_ok_iff depth, ← ih (depth + 1)]
      cases Segment.parse depth text with
      | error e => simp
      | ok s =>
          cases parseSegments (depth + 1) texts with
          | error e => simp
          | ok ss => simp [eq_comm]

/-- The first text of a row that stands for no segment, and what is wrong with it. -/
def FirstFault (depth : Nat) (texts : List (List Char)) (e : PathError) : Prop :=
  ∃ k text, texts[k]? = some text ∧ (∀ t ∈ texts.take k, ∃ s, Segment.Written t s) ∧
    Segment.Faulty (depth + k) text e

theorem firstFault_cons {depth : Nat} {text : List Char} {texts : List (List Char)}
    {e : PathError} :
    FirstFault depth (text :: texts) e ↔
      Segment.Faulty depth text e ∨
        (∃ s, Segment.Written text s) ∧ FirstFault (depth + 1) texts e := by
  -- the first fault is in the first text or behind it
  rw [FirstFault, FirstFault, ← Nat.or_exists_add_one]
  simp only [List.getElem?_cons_zero, List.getElem?_cons_succ, Option.some.injEq, List.take_zero,
    List.take_succ_cons, List.forall_mem_cons, List.not_mem_nil, Nat.add_zero, false_imp_iff,
    implies_true, true_and, exists_eq_left', Nat.add_assoc, Nat.add_comm 1]
  apply or_congr Iff.rfl
  constructor
  · intro h
    rcases h with ⟨k, t, ht, ⟨hfirst, hbefore⟩, hfault⟩
    exact ⟨hfirst, k, t, ht, hbefore, hfault⟩
  · intro h
    rcases h with ⟨hfirst, k, t, ht, hbefore, hfault⟩
    exact ⟨k, t, ht, ⟨hfirst, hbefore⟩, hfault⟩

theorem parseSegments_eq_error_iff {depth : Nat} {texts : List (List Char)} {e : PathError} :
    parseSegments depth texts = .error e ↔ FirstFault depth texts e := by
  induction texts generalizing depth with
  | nil => simp [parseSegments, FirstFault]
  | cons text texts ih =>
      rw [parseSegments, firstFault_cons, ← Segment.parse_eq_error_iff]
      simp only [← Segment.parse_eq_ok_iff depth, ← ih]
      cases Segment.parse depth text with
      | error e => simp
      | ok s =>
          cases parseSegments (depth + 1) texts with
          | error e => simp
          | ok ss => simp

/--
What reading a path gives.  Behind the slash that begins it, the texts between slashes
write its segments one by one; otherwise the first text that writes no segment is
reported, with its place.
-/
structure ReadExactly (path : String) : Prop where
  unslashed : path.toList.head? ≠ some '/' → parse path = .error (.missingSlash path)
  accepted : ∀ rest, path.toList = '/' :: rest → ∀ segments,
    parse path = .ok ⟨segments⟩ ↔
      List.Forall₂ Segment.Written (rest.splitOn '/') segments
  refused : ∀ rest, path.toList = '/' :: rest → ∀ e,
    parse path = .error e ↔
      ∃ k text, (rest.splitOn '/')[k]? = some text ∧ (∀ s, ¬ Segment.Written text s) ∧
        (∀ t ∈ (rest.splitOn '/').take k, ∃ s, Segment.Written t s) ∧
          Segment.Faulty k text e

theorem parse_of_unslashed {path : String} (h : path.toList.head? ≠ some '/') :
    parse path = .error (.missingSlash path) := by
  unfold parse
  split
  · rename_i cs hcs
    rw [hcs] at h
    exact absurd rfl h
  · rfl

theorem parse_of_slash {path : String} {rest : List Char} (h : path.toList = '/' :: rest) :
    parse path = (parseSegments 0 (rest.splitOn '/')).map Path.mk := by
  rw [parse, h]
  simp only
  cases parseSegments 0 (rest.splitOn '/') with
  | error e => rfl
  | ok ss => rfl

theorem parse_eq_ok_iff {path : String} {rest : List Char} {p : Path}
    (h : path.toList = '/' :: rest) :
    parse path = .ok p ↔ List.Forall₂ Segment.Written (rest.splitOn '/') p.segments := by
  rw [parse_of_slash h, ← parseSegments_eq_ok_iff 0]
  rcases p with ⟨segments⟩
  cases parseSegments 0 (rest.splitOn '/') with
  | error e => simp [Except.map]
  | ok ss => simp [Except.map]

theorem parse_eq_error_iff {path : String} {rest : List Char} {e : PathError}
    (h : path.toList = '/' :: rest) :
    parse path = .error e ↔ FirstFault 0 (rest.splitOn '/') e := by
  rw [parse_of_slash h, ← parseSegments_eq_error_iff]
  cases parseSegments 0 (rest.splitOn '/') with
  | error e' => simp [Except.map]
  | ok ss => simp [Except.map]

/-- A path is read as its texts say, or refused at its first faulty one. -/
theorem parse_reads_exactly (path : String) : ReadExactly path := by
  constructor
  case unslashed =>
    intro h
    exact parse_of_unslashed h
  case accepted =>
    intro rest hpath segments
    exact parse_eq_ok_iff hpath
  case refused =>
    intro rest hpath e
    rw [parse_eq_error_iff hpath, FirstFault]
    simp only [Nat.zero_add]
    constructor
    · intro h
      rcases h with ⟨k, text, htext, hbefore, hfault⟩
      exact ⟨k, text, htext, Segment.not_written_of_faulty hfault, hbefore, hfault⟩
    · intro h
      rcases h with ⟨k, text, htext, _, hbefore, hfault⟩
      exact ⟨k, text, htext, hbefore, hfault⟩

theorem parse_reads_exactly_signed :
    parse "/goal/unit[+007]" = .ok ⟨[⟨.goal, none⟩, ⟨.unit, some 7⟩]⟩ ∧
      parse "/goal/unit[+]/ident[" = .error (.malformedIndex "unit[+]" 1) ∧
      parse "goal" = .error (.missingSlash "goal") := by
  have hgoal : Segment.Written "goal".toList ⟨.goal, none⟩ :=
    .bare (r := .goal) (Rule.mem_all _)
  have hseven : Text.Denotes "+007".toList 7 :=
    Text.readCount?_eq_some_iff.mp (by decide)
  have hunit : Segment.Written "unit[+007]".toList ⟨.unit, some 7⟩ :=
    .indexed (r := .unit) (Rule.mem_all _) hseven
  have hplus : ∀ n, ¬ Text.Denotes "+".toList n := by
    intro n h
    have hnone : Text.readCount? "+".toList = none := by decide
    rw [Text.readCount?_eq_some_iff.mpr h] at hnone
    cases hnone
  have hshaped : Segment.Shaped "unit[+]".toList "unit".toList (some "+".toList) :=
    Segment.divide?_eq_some_iff.mp (by decide)
  have hfault : Segment.Faulty 1 "unit[+]".toList (.malformedIndex "unit[+]" 1) :=
    .index (r := .unit) hshaped hplus
  refine ⟨?_, ?_, ?_⟩
  · exact ((parse_reads_exactly _).accepted "goal/unit[+007]".toList rfl _).mpr
      (.cons hgoal (.cons hunit .nil))
  · apply ((parse_reads_exactly _).refused "goal/unit[+]/ident[".toList rfl _).mpr
    refine ⟨1, "unit[+]".toList, rfl, Segment.not_written_of_faulty hfault, ?_, hfault⟩
    intro t ht
    cases List.mem_singleton.mp ht
    exact ⟨_, hgoal⟩
  · exact (parse_reads_exactly _).unslashed (by decide)

end Path
end PascalUnit
