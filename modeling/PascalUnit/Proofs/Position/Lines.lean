import Mathlib.Data.List.TakeWhile
import PascalUnit.Position

/-!
# Positions by counting bytes

The position of an offset can be told from the bytes of the source alone: the line
by the line feeds before the offset, the column by what stands between the last of
them and the offset.  A table of lines gives the same.

## The table

The table lists the places where a line begins, in order and each once: the first
byte and the byte behind each line feed.  The line of an offset is the last one that
begins at or before it, so a search for the offset among these places, whether or
not it hits one, leads to that line.
-/

namespace PascalUnit

/-!
## Bytes
-/

namespace Text

def bytes (cs : List Char) : List UInt8 :=
  cs.flatMap String.utf8EncodeChar

def lineFeed : UInt8 := 10

@[simp] theorem bytes_cons (c : Char) (cs : List Char) :
    bytes (c :: cs) = String.utf8EncodeChar c ++ bytes cs := rfl

@[simp] theorem bytes_append (a b : List Char) : bytes (a ++ b) = bytes a ++ bytes b :=
  List.flatMap_append

@[simp] theorem length_bytes (cs : List Char) : (bytes cs).length = byteLength cs := by
  induction cs with
  | nil => rfl
  | cons c cs ih =>
      rw [bytes_cons, List.length_append, String.length_utf8EncodeChar, ih, byteLength_cons]

theorem utf8EncodeChar_newline : String.utf8EncodeChar '\n' = [lineFeed] := by decide

/-- No byte of another character is that of a line feed. -/
theorem lineFeed_not_mem {c : Char} (h : c ≠ '\n') : lineFeed ∉ String.utf8EncodeChar c := by
  have hcode : c.val.toNat ≠ 10 := by
    intro hten
    apply h
    apply Char.ext
    exact UInt32.toNat_inj.mp hten
  have hbyte (n : Nat) : lineFeed = UInt8.ofNat n ↔ n % 256 = 10 := by
    rw [← UInt8.toNat_inj, UInt8.toNat_ofNat', eq_comm]
    rfl
  fun_cases String.utf8EncodeChar c <;>
    simp only [List.mem_cons, List.not_mem_nil, or_false, hbyte] <;> omega

theorem lineFeed_not_mem_take {c : Char} (h : c ≠ '\n') (n : Nat) :
    lineFeed ∉ (String.utf8EncodeChar c).take n := by
  intro hmem
  exact lineFeed_not_mem h (List.mem_of_mem_take hmem)

theorem exists_of_getElem?_bytes {cs : List Char} {i : Nat}
    (h : (bytes cs)[i]? = some lineFeed) :
    ∃ before after, cs = before ++ '\n' :: after ∧ byteLength before = i := by
  induction cs generalizing i with
  | nil => cases h
  | cons c cs ih =>
      rw [bytes_cons, List.getElem?_append] at h
      split at h
      · rename_i hlt
        have hc : c = '\n' := by
          apply Decidable.byContradiction
          intro hne
          exact lineFeed_not_mem hne (List.mem_of_getElem? h)
        subst hc
        refine ⟨[], cs, rfl, ?_⟩
        rw [utf8EncodeChar_newline, List.length_singleton] at hlt
        rw [byteLength_nil]
        omega
      · rename_i hge
        rcases ih h with ⟨before, after, rfl, hlength⟩
        rw [String.length_utf8EncodeChar] at hge hlength
        refine ⟨c :: before, after, rfl, ?_⟩
        rw [byteLength_cons, hlength]
        omega

theorem getElem?_bytes_newline (before after : List Char) :
    (bytes (before ++ '\n' :: after))[byteLength before]? = some lineFeed := by
  rw [bytes_append, bytes_cons, utf8EncodeChar_newline, ← length_bytes before]
  simp

theorem count_lineFeed_bytes (cs : List Char) :
    (bytes cs).count lineFeed = cs.count '\n' := by
  induction cs with
  | nil => rfl
  | cons c cs ih =>
      rw [bytes_cons, List.count_append, ih]
      by_cases hc : c = '\n'
      · rw [hc, utf8EncodeChar_newline, List.count_singleton_self, List.count_cons_self,
          Nat.add_comm]
      · rw [List.count_eq_zero.mpr (lineFeed_not_mem hc), Nat.zero_add, List.count_cons_of_ne hc]

/--
A line that goes on to byte `place` begins at byte `start`: behind the last line feed
before `place`, or at the front.
-/
structure StartsLine (bytes : List UInt8) (place start : Nat) : Prop where
  le : start ≤ place
  behind : start = 0 ∨ ∃ i, start = i + 1 ∧ bytes[i]? = some lineFeed
  last : ∀ i, start ≤ i → i < place → bytes[i]? ≠ some lineFeed

/-!
## Parts of a text
-/

theorem exists_of_byteLength_le {a b a' b' : List Char} (h : a ++ b = a' ++ b')
    (hle : byteLength a ≤ byteLength a') : ∃ mid, a' = a ++ mid ∧ b = mid ++ b' := by
  rcases List.append_eq_append_iff.mp h with ⟨mid, ha', hb⟩ | ⟨mid, ha, hb'⟩
  · exact ⟨mid, ha', hb⟩
  · have hmid : mid = [] := by
      apply Decidable.byContradiction
      intro hne
      have hpos := byteLength_pos hne
      rw [ha, byteLength_append] at hle
      omega
    rw [hmid, List.append_nil] at ha
    rw [hmid, List.nil_append] at hb'
    exact ⟨[], by rw [ha, List.append_nil], by rw [hb', List.nil_append]⟩

theorem exists_slice?_iff {cs : List Char} {start stop : Nat} (hstart : IsBoundary cs start)
    (hle : start ≤ stop) : (∃ text, slice? cs ⟨start, stop⟩ = some text) ↔ IsBoundary cs stop := by
  constructor
  · intro h
    rcases h with ⟨text, htext⟩
    rcases slice?_eq_some_iff.mp htext with ⟨before, after, rfl, _, hstop⟩
    refine ⟨before ++ text, after, by simp, ?_⟩
    rw [byteLength_append, hstop]
  · intro h
    rcases hstart with ⟨a, b, rfl, hstart⟩
    rcases h with ⟨a', b', heq, hstop⟩
    rcases exists_of_byteLength_le heq (by omega) with ⟨mid, rfl, rfl⟩
    refine ⟨mid, slice?_eq_some_iff.mpr ⟨a, b', rfl, hstart, ?_⟩⟩
    rw [← hstop, byteLength_append]

end Text

/-!
## Where lines begin
-/

namespace LineTable

open Text

theorem mem_breaks_iff {offset : Nat} {cs : List Char} {line : Line} :
    line ∈ breaks offset cs ↔
      ∃ before, cs = before ++ '\n' :: line.text ∧
        line.start = offset + byteLength before + 1 := by
  induction cs generalizing offset with
  | nil => simp [breaks]
  | cons c cs ih =>
      have hbreaks : line ∈ breaks offset (c :: cs) ↔
          c = '\n' ∧ line = ⟨offset + 1, cs⟩ ∨ line ∈ breaks (offset + c.utf8Size) cs := by
        rw [breaks]
        split
        · rename_i hc
          subst hc
          simp only [List.mem_cons, true_and]
          exact Iff.rfl
        · rename_i hc
          simp [hc]
      rw [hbreaks, ih]
      constructor
      · intro h
        rcases h with ⟨rfl, rfl⟩ | ⟨before, rfl, hstart⟩
        · exact ⟨[], rfl, rfl⟩
        · refine ⟨c :: before, rfl, ?_⟩
          rw [hstart, byteLength_cons, Nat.add_assoc offset]
      · intro h
        rcases h with ⟨before, heq, hstart⟩
        rcases List.cons_eq_append_iff.mp heq with ⟨rfl, hcs⟩ | ⟨before, rfl, rfl⟩
        · cases hcs
          left
          rcases line with ⟨start, text⟩
          cases hstart
          exact ⟨rfl, rfl⟩
        · right
          refine ⟨before, rfl, ?_⟩
          rw [hstart, byteLength_cons, ← Nat.add_assoc offset]

theorem lt_start_of_mem_breaks {offset : Nat} {cs : List Char} {line : Line}
    (h : line ∈ breaks offset cs) : offset < line.start := by
  rcases mem_breaks_iff.mp h with ⟨before, _, hstart⟩
  omega

theorem breaks_increase (offset : Nat) (cs : List Char) :
    (breaks offset cs).Pairwise fun x y => x.start < y.start := by
  induction cs generalizing offset with
  | nil => exact .nil
  | cons c cs ih =>
      rw [breaks]
      split
      · exact List.pairwise_cons.mpr ⟨fun line hline => lt_start_of_mem_breaks hline, ih _⟩
      · exact ih _

/-- A line begins at the front of a text and behind every line feed. -/
def Begins (cs : List Char) (line : Line) : Prop :=
  ∃ before, cs = before ++ line.text ∧ byteLength before = line.start ∧
    (before = [] ∨ ∃ earlier, before = earlier ++ ['\n'])

theorem mem_lines_iff {cs : List Char} {line : Line} :
    line ∈ (ofText cs).lines ↔ Begins cs line := by
  rw [ofText, List.mem_cons, mem_breaks_iff]
  constructor
  · intro h
    rcases h with rfl | ⟨earlier, rfl, hstart⟩
    · exact ⟨[], rfl, rfl, Or.inl rfl⟩
    · refine ⟨earlier ++ ['\n'], by simp, ?_, Or.inr ⟨earlier, rfl⟩⟩
      rw [byteLength_append, hstart, Nat.zero_add]
      rfl
  · intro h
    rcases line with ⟨start, text⟩
    rcases h with ⟨before, rfl, hstart, rfl | ⟨earlier, rfl⟩⟩
    · left
      cases hstart
      rfl
    · right
      refine ⟨earlier, by simp, ?_⟩
      rw [← hstart, byteLength_append, Nat.zero_add]
      rfl

theorem lines_increase (cs : List Char) :
    (ofText cs).lines.Pairwise fun x y => x.start < y.start :=
  List.pairwise_cons.mpr ⟨fun _ h => lt_start_of_mem_breaks h, breaks_increase 0 cs⟩

def starts (table : LineTable) : List Nat :=
  table.lines.map Line.start

theorem getElem?_starts_eq_some_iff {table : LineTable} {j x : Nat} :
    table.starts[j]? = some x ↔ ∃ line, table.lines[j]? = some line ∧ line.start = x := by
  rw [starts, List.getElem?_map, Option.map_eq_some_iff]

theorem starts_increase (cs : List Char) : (ofText cs).starts.Pairwise (· < ·) :=
  List.pairwise_map.mpr (lines_increase cs)

theorem lt_of_getElem?_starts {cs : List Char} {i j x y : Nat} (hij : i < j)
    (hx : (ofText cs).starts[i]? = some x) (hy : (ofText cs).starts[j]? = some y) : x < y := by
  rcases List.getElem?_eq_some_iff.mp hx with ⟨hi, rfl⟩
  rcases List.getElem?_eq_some_iff.mp hy with ⟨hj, rfl⟩
  exact List.pairwise_iff_getElem.mp (starts_increase cs) i j hi hj hij

/-!
## The line of a byte
-/

def started (table : LineTable) (place : Nat) : List Line :=
  table.lines.takeWhile fun line => decide (line.start ≤ place)

theorem lt_start_of_mem_dropWhile {lines : List Line}
    (h : lines.Pairwise fun x y => x.start < y.start) (place : Nat) :
    ∀ line ∈ lines.dropWhile fun line => decide (line.start ≤ place), place < line.start := by
  induction lines with
  | nil => simp
  | cons first lines ih =>
      rw [List.pairwise_cons] at h
      rw [List.dropWhile_cons]
      split
      · exact ih h.2
      · rename_i hfirst
        rw [decide_eq_true_eq, Nat.not_le] at hfirst
        rw [List.forall_mem_cons]
        exact ⟨hfirst, fun line hline => Nat.lt_trans hfirst (h.1 line hline)⟩

/-- A byte divides the lines into those that begin before it or at it, and later ones. -/
theorem lines_divided (cs : List Char) (place : Nat) :
    ∃ later, (ofText cs).lines = (ofText cs).started place ++ later ∧
      (∀ line ∈ (ofText cs).started place, line.start ≤ place) ∧
        ∀ line ∈ later, place < line.start := by
  refine ⟨_, List.takeWhile_append_dropWhile.symm, ?_,
    lt_start_of_mem_dropWhile (lines_increase cs) place⟩
  intro line hline
  have hstarted :=
    List.mem_takeWhile_imp (p := fun line : Line => decide (line.start ≤ place)) hline
  exact of_decide_eq_true hstarted

structure LineAt (table : LineTable) (place index : Nat) (line : Line) : Prop where
  listed : table.lines[index]? = some line
  reached : line.start ≤ place
  last : ∀ j later, index < j → table.lines[j]? = some later → place < later.start

theorem exists_lineAt (cs : List Char) (place : Nat) :
    ∃ index line, LineAt (ofText cs) place index line ∧
      ((ofText cs).started place).length = index + 1 ∧
        ((ofText cs).started place).getLastD ⟨0, []⟩ = line := by
  rcases lines_divided cs place with ⟨later, hlines, hstarted, hlater⟩
  have hne : (ofText cs).started place ≠ [] := by
    simp [started, ofText]
  rcases List.eq_nil_or_concat ((ofText cs).started place) with hnil | ⟨earlier, line, hlast⟩
  · exact absurd hnil hne
  · rw [hlast] at hlines hstarted ⊢
    refine ⟨earlier.length, line, ⟨?_, hstarted line (by simp), ?_⟩, by simp, by simp⟩
    · rw [hlines]
      simp
    · intro j line' hj hline'
      rw [hlines, List.getElem?_append_right (by simp; omega)] at hline'
      exact hlater line' (List.mem_of_getElem? hline')

theorem LineAt.begins {cs : List Char} {place index : Nat} {line : Line}
    (h : LineAt (ofText cs) place index line) : Begins cs line :=
  mem_lines_iff.mp (List.mem_of_getElem? h.listed)

theorem LineAt.start_listed {table : LineTable} {place index : Nat} {line : Line}
    (h : LineAt table place index line) : table.starts[index]? = some line.start :=
  getElem?_starts_eq_some_iff.mpr ⟨line, h.listed, rfl⟩

theorem LineAt.lt_of_later {table : LineTable} {place index : Nat} {line : Line}
    (h : LineAt table place index line) {j x : Nat} (hj : index < j)
    (hx : table.starts[j]? = some x) : place < x := by
  rcases getElem?_starts_eq_some_iff.mp hx with ⟨later, hlater, rfl⟩
  exact h.last j later hj hlater

theorem LineAt.le_of_earlier {cs : List Char} {place index : Nat} {line : Line}
    (h : LineAt (ofText cs) place index line) {j x : Nat} (hj : j ≤ index)
    (hx : (ofText cs).starts[j]? = some x) : x ≤ line.start := by
  rcases Nat.lt_or_eq_of_le hj with hlt | heq
  · exact Nat.le_of_lt (lt_of_getElem?_starts hlt hx h.start_listed)
  · rw [heq, h.start_listed] at hx
    cases hx
    exact Nat.le_refl _

theorem LineAt.greatest {cs : List Char} {place index : Nat} {line line' : Line}
    (h : LineAt (ofText cs) place index line) (hbegins : Begins cs line')
    (hle : line'.start ≤ place) : line'.start ≤ line.start := by
  rcases List.getElem?_of_mem (mem_lines_iff.mpr hbegins) with ⟨j, hj⟩
  have hstart := getElem?_starts_eq_some_iff.mpr ⟨line', hj, rfl⟩
  apply h.le_of_earlier _ hstart
  apply Nat.le_of_not_lt
  intro hlater
  have hlt := h.lt_of_later hlater hstart
  omega

/-!
## Lines are counted by line feeds
-/

theorem countP_breaks (offset place : Nat) (cs : List Char) :
    (breaks offset cs).countP (fun line => decide (line.start ≤ place)) =
      ((bytes cs).take (place - offset)).count lineFeed := by
  induction cs generalizing offset with
  | nil => simp [breaks, bytes]
  | cons c cs ih =>
      rw [breaks, bytes_cons, List.take_append, List.count_append]
      split
      · rename_i hc
        subst hc
        have hsize : '\n'.utf8Size = 1 := rfl
        have hfirst : ([lineFeed].take (place - offset)).count lineFeed =
            if decide (offset + 1 ≤ place) = true then 1 else 0 := by
          split
          · rename_i hle
            rw [decide_eq_true_eq] at hle
            rw [List.take_of_length_le (by simp; omega)]
            rfl
          · rename_i hgt
            rw [decide_eq_true_eq] at hgt
            have hzero : place - offset = 0 := by omega
            rw [hzero]
            rfl
        rw [List.countP_cons, ih, utf8EncodeChar_newline, hsize, hfirst, List.length_singleton,
          Nat.sub_sub, Nat.add_comm]
      · rename_i hc
        have hnone : ((String.utf8EncodeChar c).take (place - offset)).count lineFeed = 0 :=
          List.count_eq_zero.mpr (lineFeed_not_mem_take hc _)
        rw [ih, hnone, Nat.zero_add, String.length_utf8EncodeChar, Nat.sub_sub]

theorem length_started (cs : List Char) (place : Nat) :
    ((ofText cs).started place).length = 1 + ((bytes cs).take place).count lineFeed := by
  rcases lines_divided cs place with ⟨later, hlines, hstarted, hlater⟩
  have hcount : (ofText cs).lines.countP (fun line => decide (line.start ≤ place)) =
      ((ofText cs).started place).length := by
    rw [hlines, List.countP_append, List.countP_eq_length.mpr, List.countP_eq_zero.mpr,
      Nat.add_zero]
    · intro line hline
      simpa using hlater line hline
    · intro line hline
      simpa using hstarted line hline
  rw [← hcount, ofText, List.countP_cons, countP_breaks, Nat.sub_zero, Nat.add_comm]
  simp

/-!
## Columns
-/

theorem countTo_of_begins {cs : List Char} {place : Nat} {line : Line} (hbegins : Begins cs line)
    (hle : line.start ≤ place) :
    countTo (place - line.start) line.text =
      match slice? cs ⟨line.start, place⟩ with
      | some text => text.length
      | none => place - line.start := by
  rcases hbegins with ⟨before, rfl, hstart, _⟩
  have hdrop : dropBytes? line.start (before ++ line.text) = some line.text := by
    rw [← hstart, dropBytes?_append]
  rw [countTo, slice?, if_pos hle, hdrop]
  rfl

theorem LineAt.startsLine {cs : List Char} {place index : Nat} {line : Line}
    (h : LineAt (ofText cs) place index line) :
    StartsLine (bytes cs) place line.start := by
  constructor
  case le => exact h.reached
  case behind =>
    rcases h.begins with ⟨before, hcs, hstart, rfl | ⟨earlier, rfl⟩⟩
    · left
      rw [← hstart]
      rfl
    · right
      refine ⟨byteLength earlier, ?_, ?_⟩
      · rw [← hstart, byteLength_append]
        rfl
      · rw [hcs, List.append_assoc]
        exact getElem?_bytes_newline earlier line.text
  case last =>
    -- a line feed there would begin a later line
    intro i hi hplace hfeed
    rcases exists_of_getElem?_bytes hfeed with ⟨before, after, hcs, hlength⟩
    have hlength' : byteLength (before ++ ['\n']) = i + 1 := by
      rw [byteLength_append, hlength]
      rfl
    have hbegins : Begins cs ⟨i + 1, after⟩ :=
      ⟨before ++ ['\n'], by simp [hcs], hlength', Or.inr ⟨before, rfl⟩⟩
    have hle := h.greatest hbegins hplace
    simp at hle
    omega

theorem Begins.isBoundary {cs : List Char} {line : Line} (h : Begins cs line) :
    IsBoundary cs line.start := by
  rcases h with ⟨before, hcs, hstart, _⟩
  exact ⟨before, line.text, hcs, hstart⟩

/-!
## Searching the table
-/

/--
What a search for a value in an increasing row of numbers gives: a place at which it
stands, or else the place at which it can be put in.
-/
inductive Searched (row : List Nat) (value : Nat) : Except Nat Nat → Prop where
  | hit {i : Nat} : row[i]? = some value → Searched row value (.ok i)
  | miss {i : Nat} :
      i ≤ row.length → (∀ j x, j < i → row[j]? = some x → x < value) →
        (∀ j x, i ≤ j → row[j]? = some x → value < x) → Searched row value (.error i)

/-- A search hits the start of the line of a byte, or lands behind it. -/
theorem LineAt.searched_iff {cs : List Char} {place index : Nat} {line : Line}
    (h : LineAt (ofText cs) place index line) {outcome : Except Nat Nat} :
    Searched (ofText cs).starts place outcome ↔
      line.start = place ∧ outcome = .ok index ∨
        line.start < place ∧ outcome = .error (index + 1) := by
  have hreached := h.reached
  constructor
  · intro hsearched
    cases hsearched with
    | @hit i hi =>
        have hindex : i = index := by
          rcases Nat.lt_trichotomy i index with hlt | heq | hgt
          · have hplace := lt_of_getElem?_starts hlt hi h.start_listed
            omega
          · exact heq
          · have hplace := h.lt_of_later hgt hi
            omega
        rw [hindex, h.start_listed] at hi
        exact Or.inl ⟨Option.some.inj hi, by rw [hindex]⟩
    | @miss i hle hbelow habove =>
        have hbehind : index < i := by
          apply Nat.lt_of_not_le
          intro hi
          have hplace := habove index line.start hi h.start_listed
          omega
        have hnext : i ≤ index + 1 := by
          apply Nat.le_of_not_lt
          intro hi
          -- the line after this one would begin both before and behind the byte
          have hget := List.getElem?_eq_getElem (Nat.lt_of_lt_of_le hi hle)
          have hbefore := hbelow (index + 1) _ hi hget
          have hplace := h.lt_of_later (Nat.lt_succ_self index) hget
          omega
        have hi : i = index + 1 := by omega
        exact Or.inr ⟨hbelow index line.start hbehind h.start_listed, by rw [hi]⟩
  · intro houtcome
    rcases houtcome with ⟨hplace, rfl⟩ | ⟨hplace, rfl⟩
    · apply Searched.hit
      rw [← hplace]
      exact h.start_listed
    · apply Searched.miss
      · exact (List.getElem?_eq_some_iff.mp h.start_listed).1
      · intro j x hj hx
        exact Nat.lt_of_le_of_lt (h.le_of_earlier (Nat.le_of_lt_succ hj) hx) hplace
      · intro j x hj hx
        exact h.lt_of_later hj hx

end LineTable

/-!
## Positions
-/

namespace Position

theorem exists_lineAt (cs : List Char) (offset : Nat) :
    ∃ index line,
      LineTable.LineAt (.ofText cs) (min offset (Text.byteLength cs)) index line ∧
        ofOffset cs offset = ⟨index + 1,
          LineTable.countTo (min offset (Text.byteLength cs) - line.start) line.text + 1⟩ := by
  rcases LineTable.exists_lineAt cs (min offset (Text.byteLength cs)) with
    ⟨index, line, hline, hlength, hlast⟩
  refine ⟨index, line, hline, ?_⟩
  rw [← hlast, ← hlength]
  rfl

theorem line_ofOffset (cs : List Char) (offset : Nat) :
    (ofOffset cs offset).line =
      1 + ((Text.bytes cs).take (min offset (Text.byteLength cs))).count Text.lineFeed :=
  LineTable.length_started cs (min offset (Text.byteLength cs))

/--
The position of a byte in the line that begins at byte `start`.  The line is counted by
line feeds, the column by characters, or by bytes inside a character.
-/
structure CountsBytes (cs : List Char) (place start : Nat) (p : Position) : Prop where
  starts : Text.StartsLine (Text.bytes cs) place start
  line : p.line = 1 + ((Text.bytes cs).take place).count Text.lineFeed
  column : Text.IsBoundary cs place →
    ∃ text, Text.slice? cs ⟨start, place⟩ = some text ∧ p.column = 1 + text.length
  columnInside : ¬ Text.IsBoundary cs place → p.column = 1 + (place - start)

/--
A search among the starts of lines comes to the line which begins at byte `start`: it
hits that line or lands right behind it, so never at the front of the table.
-/
structure FoundBySearch (cs : List Char) (place start : Nat) (p : Position) : Prop where
  increasing : (LineTable.ofText cs).starts.Pairwise (· < ·)
  answered : ∃ outcome, LineTable.Searched (LineTable.ofText cs).starts place outcome
  found : ∀ outcome, LineTable.Searched (LineTable.ofText cs).starts place outcome →
    ∃ index, (outcome = .ok index ∨ outcome = .error (index + 1)) ∧
      (LineTable.ofText cs).starts[index]? = some start ∧ p.line = index + 1

/-- The position of an offset is told by the bytes before it; past the end, by all bytes. -/
theorem ofOffset_counts_bytes (cs : List Char) (offset : Nat) :
    ∃ start,
      CountsBytes cs (min offset (Text.bytes cs).length) start (ofOffset cs offset) ∧
        FoundBySearch cs (min offset (Text.bytes cs).length) start (ofOffset cs offset) := by
  rw [Text.length_bytes]
  rcases exists_lineAt cs offset with ⟨index, line, hline, hposition⟩
  have hcolumn := LineTable.countTo_of_begins hline.begins hline.reached
  have hboundary := Text.exists_slice?_iff hline.begins.isBoundary hline.reached
  refine ⟨line.start, ?_, ?_⟩
  · constructor
    case starts => exact hline.startsLine
    case line => exact line_ofOffset cs offset
    case column =>
      intro hplace
      rcases hboundary.mpr hplace with ⟨text, htext⟩
      refine ⟨text, htext, ?_⟩
      rw [hposition, hcolumn, htext]
      exact Nat.add_comm _ _
    case columnInside =>
      intro hplace
      have hnone : Text.slice? cs ⟨line.start, min offset (Text.byteLength cs)⟩ = none := by
        rw [Option.eq_none_iff_forall_ne_some]
        intro text htext
        exact hplace (hboundary.mp ⟨text, htext⟩)
      rw [hposition, hcolumn, hnone]
      exact Nat.add_comm _ _
  · constructor
    case increasing => exact LineTable.starts_increase cs
    case answered =>
      rcases Nat.lt_or_eq_of_le hline.reached with hlt | heq
      · exact ⟨_, hline.searched_iff.mpr (Or.inr ⟨hlt, rfl⟩)⟩
      · exact ⟨_, hline.searched_iff.mpr (Or.inl ⟨heq, rfl⟩)⟩
    case found =>
      intro outcome houtcome
      have hindex : (ofOffset cs offset).line = index + 1 := by rw [hposition]
      rcases hline.searched_iff.mp houtcome with ⟨_, rfl⟩ | ⟨_, rfl⟩
      · exact ⟨index, Or.inl rfl, hline.start_listed, hindex⟩
      · exact ⟨index, Or.inr rfl, hline.start_listed, hindex⟩

end Position
end PascalUnit
