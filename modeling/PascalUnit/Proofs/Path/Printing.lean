import Mathlib.Data.List.TakeWhile
import PascalUnit.Path

/-!
# Written paths are read back

A path is written as its segments, each after a slash.  Names of rules hold neither
slashes nor brackets, and counts hold digits only, so that the text falls apart into
the segments it was made of.
-/

namespace PascalUnit

/-!
## Counts
-/

namespace Text

theorem isDigit_of_mem_writeCount {n : Nat} {c : Char} (h : c ∈ writeCount n) :
    c.isDigit = true :=
  Nat.isDigit_of_mem_toDigits (by decide) (by decide) h

theorem writeCount_ne_nil (n : Nat) : writeCount n ≠ [] :=
  Nat.toDigits_ne_nil

theorem dropPlus_of_isDigit {cs : List Char} (h : ∀ c ∈ cs, c.isDigit = true) :
    dropPlus cs = cs := by
  unfold dropPlus
  split
  · rename_i cs
    have hdigit : '+'.isDigit = true := h '+' List.mem_cons_self
    cases hdigit
  · rfl

theorem readCount?_writeCount {n : Nat} (h : n < countLimit) :
    readCount? (writeCount n) = some n := by
  have hplus : dropPlus (writeCount n) = writeCount n :=
    dropPlus_of_isDigit fun c hc => isDigit_of_mem_writeCount hc
  have hdigits : isDigits (writeCount n) = true := by
    simp only [isDigits, Bool.and_eq_true, Bool.not_eq_true', List.isEmpty_eq_false_iff,
      List.all_eq_true]
    exact ⟨writeCount_ne_nil n, fun c hc => isDigit_of_mem_writeCount hc⟩
  have hvalue : digitsValue (writeCount n) = n :=
    Nat.ofDigitChars_ten_toDigits
  rw [readCount?]
  simp only [hplus, hdigits, hvalue, h, decide_true, Bool.and_true, if_true]

end Text

/-!
## Segments
-/

namespace Segment

theorem isName_name (r : Rule) : Text.isName r.name.toList = true := by
  cases r <;> rfl

theorem not_isBracket_name (r : Rule) : ∀ c ∈ r.name.toList, (!isBracket c) = true := by
  rw [← List.all_eq_true]
  cases r <;> rfl

theorem not_isBracket_of_isDigit {c : Char} (h : c.isDigit = true) : (!isBracket c) = true := by
  rw [Bool.not_eq_true', Bool.eq_false_iff]
  intro hbracket
  simp only [isBracket, Bool.or_eq_true, decide_eq_true_eq] at hbracket
  rcases hbracket with rfl | rfl <;> cases h

theorem divide?_bare {name : List Char} (h : ∀ c ∈ name, (!isBracket c) = true) :
    divide? name = some (name, none) := by
  rw [divide?, List.takeWhile_eq_self_iff.mpr h, List.dropWhile_eq_nil_iff.mpr h]

theorem divide?_indexed {name index : List Char} (hname : ∀ c ∈ name, (!isBracket c) = true)
    (hindex : ∀ c ∈ index, (!isBracket c) = true) :
    divide? (name ++ '[' :: index ++ [']']) = some (name, some index) := by
  have happend : name ++ '[' :: index ++ [']'] = name ++ '[' :: (index ++ [']']) := by simp
  rw [divide?, happend, List.takeWhile_append_of_pos hname, List.dropWhile_append_of_pos hname]
  have hbracket : (!isBracket '[') = false := rfl
  have hclosing : (!isBracket ']') = false := rfl
  simp only [List.takeWhile_cons, List.dropWhile_cons, hbracket, Bool.false_eq_true, if_false,
    List.append_nil, List.takeWhile_append_of_pos hindex, List.dropWhile_append_of_pos hindex,
    hclosing, if_true]

theorem parse_spell {s : Segment} (h : s.position < Text.countLimit) (depth : Nat) :
    parse depth s.spell = .ok s := by
  rcases s with ⟨r, index⟩
  have hname := isName_name r
  have hne : r.name.toList ≠ [] := by
    intro hnil
    rw [hnil] at hname
    cases hname
  cases index with
  | none =>
      rw [parse, spell]
      simp [hne, divide?_bare (not_isBracket_name r), hname, readIndex?]
  | some n =>
      have hcount : Text.readCount? (Text.writeCount n) = some n :=
        Text.readCount?_writeCount h
      have hdivide : divide? (r.name.toList ++ '[' :: Text.writeCount n ++ [']']) =
          some (r.name.toList, some (Text.writeCount n)) := by
        apply divide?_indexed (not_isBracket_name r)
        intro c hc
        exact not_isBracket_of_isDigit (Text.isDigit_of_mem_writeCount hc)
      rw [parse, spell]
      simp only [hdivide, hname, String.ofList_toList, Rule.ofName?_name, readIndex?]
      simp [hcount]

theorem slash_not_mem_spell (s : Segment) : '/' ∉ s.spell := by
  rcases s with ⟨r, index⟩
  have hname : '/' ∉ r.name.toList := by
    cases r <;> decide
  cases index with
  | none => exact hname
  | some n =>
      have hcount : '/' ∉ Text.writeCount n := by
        intro hmem
        have hdigit := Text.isDigit_of_mem_writeCount hmem
        cases hdigit
      simp [spell, hname, hcount]

end Segment

/-!
## Paths
-/

namespace Path

theorem spell_eq_intercalate (s : Segment) (ss : List Segment) :
    spell ⟨s :: ss⟩ = '/' :: ['/'].intercalate ((s :: ss).map Segment.spell) := by
  induction ss generalizing s with
  | nil => simp [spell]
  | cons t ss ih =>
      have hmore := ih t
      rw [spell, List.flatMap_cons] at hmore ⊢
      rw [List.flatMap_cons, hmore]
      simp [List.intercalate_cons_cons]

theorem parseSegments_spell {ss : List Segment}
    (h : ∀ s ∈ ss, s.position < Text.countLimit) (depth : Nat) :
    parseSegments depth (ss.map Segment.spell) = .ok ss := by
  induction ss generalizing depth with
  | nil => rfl
  | cons s ss ih =>
      rw [List.forall_mem_cons] at h
      rw [List.map_cons, parseSegments, Segment.parse_spell h.1]
      simp only [ih h.2]

/-- A path that is read has a segment, if only because the text after the slash is one. -/
theorem segments_ne_nil_of_parse {text : String} {p : Path} (h : parse text = .ok p) :
    p.segments ≠ [] := by
  unfold parse at h
  split at h
  · rename_i cs _
    rcases List.exists_cons_of_ne_nil (List.splitOn_ne_nil '/' cs) with ⟨first, rest, hsplit⟩
    rw [hsplit, parseSegments] at h
    cases hfirst : Segment.parse 0 first with
    | error e => simp [hfirst] at h
    | ok s =>
        cases hrest : parseSegments 1 rest with
        | error e => simp [hfirst, hrest] at h
        | ok ss =>
            simp only [hfirst, hrest, Except.ok.injEq] at h
            rw [← h]
            exact List.cons_ne_nil s ss
  · cases h

theorem parse_render {p : Path} (hne : p.segments ≠ [])
    (h : ∀ s ∈ p.segments, s.position < Text.countLimit) : parse p.render = .ok p := by
  rcases p with ⟨ss⟩
  cases ss with
  | nil => exact absurd rfl hne
  | cons s ss =>
      have hsplit : (['/'].intercalate ((s :: ss).map Segment.spell)).splitOn '/' =
          (s :: ss).map Segment.spell := by
        refine List.splitOn_intercalate '/' ?_ (by simp)
        intro text htext
        rcases List.mem_map.mp htext with ⟨t, _, rfl⟩
        exact Segment.slash_not_mem_spell t
      rw [parse, render, String.toList_ofList, spell_eq_intercalate]
      simp only [hsplit, parseSegments_spell h]

end Path
end PascalUnit
