import PascalUnit.Proofs.Lexeme.Respelling
import PascalUnit.Proofs.Position.Lines

/-!
# Positions in the order of the source

Every character moves the position on: a line feed to the front of the next line, any
other character to the next column.  The position of a boundary is where the text
before it leads from the front of the source, so the positions of boundaries come in
the order of the boundaries, and the positions of lexemes in the order of the lexemes.
-/

namespace PascalUnit
namespace Position

/-!
## Source order
-/

theorem Before.trans {p q r : Position} (h : p.Before q) (h' : q.Before r) : p.Before r := by
  unfold Before at h h' ⊢
  omega

theorem Before.irrefl (p : Position) : ¬ p.Before p := by
  unfold Before
  omega

/-!
## One character, a whole text
-/

def advance (p : Position) (c : Char) : Position :=
  if c = '\n' then ⟨p.line + 1, 1⟩ else ⟨p.line, p.column + 1⟩

theorem before_advance (p : Position) (c : Char) : p.Before (p.advance c) := by
  unfold advance
  split
  · exact Or.inl (Nat.lt_succ_self p.line)
  · exact Or.inr ⟨rfl, Nat.lt_succ_self p.column⟩

theorem before_foldl_advance (p : Position) {cs : List Char} (h : cs ≠ []) :
    p.Before (cs.foldl advance p) := by
  induction cs generalizing p with
  | nil => exact absurd rfl h
  | cons c cs ih =>
      rw [List.foldl_cons]
      cases cs with
      | nil => exact before_advance p c
      | cons d cs => exact (before_advance p c).trans (ih (p.advance c) (List.cons_ne_nil d cs))

theorem line_foldl_advance (p : Position) (cs : List Char) :
    (cs.foldl advance p).line = p.line + cs.count '\n' := by
  induction cs generalizing p with
  | nil => rfl
  | cons c cs ih =>
      rw [List.foldl_cons, ih, advance]
      split
      · rename_i hc
        rw [hc, List.count_cons_self, Nat.add_assoc, Nat.add_comm 1]
      · rename_i hc
        rw [List.count_cons_of_ne hc]

theorem column_foldl_advance (p : Position) {cs : List Char} (h : '\n' ∉ cs) :
    (cs.foldl advance p).column = p.column + cs.length := by
  induction cs generalizing p with
  | nil => rfl
  | cons c cs ih =>
      rw [List.mem_cons, not_or] at h
      rw [List.foldl_cons, ih _ h.2, advance, if_neg (Ne.symm h.1), List.length_cons]
      show p.column + 1 + cs.length = _
      omega

end Position

/-!
## Positions of boundaries
-/

namespace LineTable

/-- The text before a boundary ends with the part of the boundary's line that is passed. -/
theorem LineAt.exists_passed {before after : List Char} {index : Nat} {line : Line}
    (h : LineAt (ofText (before ++ after)) (Text.byteLength before) index line) :
    ∃ first passed, before = first ++ passed ∧ line.text = passed ++ after ∧
      Text.byteLength first = line.start ∧
        (first = [] ∨ ∃ earlier, first = earlier ++ ['\n']) ∧ '\n' ∉ passed := by
  rcases h.begins with ⟨first, hcs, hlength, hfirst⟩
  have hle : Text.byteLength first ≤ Text.byteLength before := by
    rw [hlength]
    exact h.reached
  rcases Text.exists_of_byteLength_le hcs.symm hle with ⟨passed, hbefore, htext⟩
  refine ⟨first, passed, hbefore, htext, hlength, hfirst, ?_⟩
  intro hmem
  rcases List.append_of_mem hmem with ⟨early, late, rfl⟩
  apply h.startsLine.last (Text.byteLength (first ++ early))
  · rw [Text.byteLength_append, hlength]
    exact Nat.le_add_right _ _
  · have hpos := Char.utf8Size_pos '\n'
    rw [hbefore]
    simp only [Text.byteLength_append, Text.byteLength_cons]
    omega
  · have hfeed := Text.getElem?_bytes_newline (first ++ early) (late ++ after)
    rw [hbefore]
    simpa using hfeed

end LineTable

namespace Position

theorem column_foldl_advance_of_begins {first : List Char}
    (h : first = [] ∨ ∃ earlier, first = earlier ++ ['\n']) :
    (first.foldl advance ⟨1, 1⟩).column = 1 := by
  rcases h with rfl | ⟨earlier, rfl⟩
  · rfl
  · rw [List.foldl_append]
    rfl

theorem ofOffset_append (before after : List Char) :
    ofOffset (before ++ after) (Text.byteLength before) = before.foldl advance ⟨1, 1⟩ := by
  have hplace : min (Text.byteLength before) (Text.byteLength (before ++ after)) =
      Text.byteLength before := by
    rw [Text.byteLength_append]
    omega
  have hcount := line_ofOffset (before ++ after) (Text.byteLength before)
  rcases exists_lineAt (before ++ after) (Text.byteLength before) with
    ⟨index, line, hline, hposition⟩
  rw [hplace] at hline hposition hcount
  rcases hline.exists_passed with ⟨first, passed, hbefore, htext, hlength, hfirst, hpassed⟩
  have hindex : index + 1 = (before.foldl advance ⟨1, 1⟩).line := by
    rw [hposition, Text.bytes_append, ← Text.length_bytes before, List.take_left,
      Text.count_lineFeed_bytes] at hcount
    rw [line_foldl_advance]
    exact hcount
  have hcolumn : LineTable.countTo (Text.byteLength before - line.start) line.text + 1 =
      (before.foldl advance ⟨1, 1⟩).column := by
    rw [htext, hbefore, ← hlength, Text.byteLength_append, Nat.add_sub_cancel_left,
      LineTable.countTo, Text.takeBytes?_append, List.foldl_append,
      column_foldl_advance _ hpassed, column_foldl_advance_of_begins hfirst, Nat.add_comm]
  rw [hposition, hindex, hcolumn]

theorem before_of_lt {cs : List Char} {a b : Nat} (ha : Text.IsBoundary cs a)
    (hb : Text.IsBoundary cs b) (hlt : a < b) : (ofOffset cs a).Before (ofOffset cs b) := by
  rcases ha with ⟨before, after, rfl, rfl⟩
  rcases hb with ⟨before', after', hcs, rfl⟩
  rcases Text.exists_of_byteLength_le hcs (Nat.le_of_lt hlt) with ⟨mid, rfl, rfl⟩
  have hmid : mid ≠ [] := by
    intro hnil
    rw [hnil, List.append_nil] at hlt
    exact Nat.lt_irrefl _ hlt
  rw [ofOffset_append, hcs, ofOffset_append, List.foldl_append]
  exact before_foldl_advance _ hmid

theorem before_iff_lt {cs : List Char} {a b : Nat} (ha : Text.IsBoundary cs a)
    (hb : Text.IsBoundary cs b) : (ofOffset cs a).Before (ofOffset cs b) ↔ a < b := by
  constructor
  · intro h
    rcases Nat.lt_trichotomy a b with hlt | heq | hgt
    · exact hlt
    · rw [heq] at h
      exact absurd h (Before.irrefl _)
    · exact absurd (h.trans (before_of_lt hb ha hgt)) (Before.irrefl _)
  · exact before_of_lt ha hb

end Position

/-!
## Positions of lexemes
-/

theorem Scan.Tiling.isBoundary_start {cs : List Char} {entries : List PlacedToken}
    (h : Tiling 0 cs entries) :
    ∀ x ∈ entries ++ [endAt 0 cs], Text.IsBoundary cs x.span.start := by
  intro x hx
  rcases List.mem_append.mp hx with hx | hx
  · exact ((decomposition_iff_tiling.mpr h).onBoundaries x hx).1
  · rw [List.mem_singleton.mp hx]
    exact ⟨cs, [], by simp, (Nat.zero_add _).symm⟩

theorem Scan.Tiling.positions_increase {cs : List Char} {entries : List PlacedToken}
    (h : Tiling 0 cs entries) :
    ((entries ++ [endAt 0 cs]).map (PlacedToken.toLexeme (LineTable.ofText cs) cs)).Pairwise
      fun x y => x.position.Before y.position := by
  have hboundary := h.isBoundary_start
  rw [List.pairwise_map]
  apply h.starts_increase.imp_of_mem
  intro x y hx hy hlt
  exact Position.before_of_lt (hboundary x hx) (hboundary y hy) hlt

/--
Boundaries are in the order of their positions, so the lexemes of a source, with the
end of input behind them, stand at increasing positions.
-/
theorem Position.orders_source (cs : List Char) :
    (∀ a b, Text.IsBoundary cs a → Text.IsBoundary cs b →
      ((ofOffset cs a).Before (ofOffset cs b) ↔ a < b)) ∧
    ∀ ls, lexemes cs = .ok ls →
      ls.getLast?.map Lexeme.token = some .endOfInput ∧
        ls.Pairwise (fun x y => x.position.Before y.position) ∧
          (ls.map Lexeme.position).Nodup := by
  constructor
  · intro a b ha hb
    exact before_iff_lt ha hb
  · intro ls h
    rcases lexemes_eq_ok_iff.mp h with ⟨entries, htiling, rfl⟩
    have hincrease := htiling.positions_increase
    refine ⟨?_, hincrease, ?_⟩
    · rw [List.map_append, List.map_singleton, List.getLast?_concat]
      rfl
    · apply List.pairwise_map.mpr
      apply hincrease.imp
      intro x y hbefore heq
      rw [heq] at hbefore
      exact Before.irrefl _ hbefore

/-- The lexemes of a literal and a semicolon on the next line. -/
def literalLexemes : List Lexeme :=
  [⟨.literal, "'é'", ⟨0, 4⟩, ⟨1, 1⟩⟩, ⟨.mark .semicolon, ";", ⟨6, 7⟩, ⟨2, 1⟩⟩,
    ⟨.endOfInput, "", ⟨7, 7⟩, ⟨2, 2⟩⟩]

theorem Position.orders_source_literal :
    Text.IsBoundary "'é'\r\n;".toList 1 ∧ Text.IsBoundary "'é'\r\n;".toList 3 ∧
      (ofOffset "'é'\r\n;".toList 1).Before (ofOffset "'é'\r\n;".toList 3) ∧
      lexemes "'é'\r\n;".toList = .ok literalLexemes ∧
      literalLexemes.Pairwise (fun x y => x.position.Before y.position) := by
  have hopened : Text.IsBoundary "'é'\r\n;".toList 1 := ⟨['\''], _, rfl, rfl⟩
  have hletter : Text.IsBoundary "'é'\r\n;".toList 3 := ⟨['\'', 'é'], _, rfl, rfl⟩
  have hlexemes : lexemes "'é'\r\n;".toList = .ok literalLexemes := by decide +kernel
  have hordered := orders_source "'é'\r\n;".toList
  refine ⟨hopened, hletter, ?_, hlexemes, (hordered.2 _ hlexemes).2.1⟩
  exact (hordered.1 1 3 hopened hletter).mpr (by decide)

-- columns count bytes inside a character, so the order is lost there
example : Position.ofOffset ['é'] 1 = Position.ofOffset ['é'] 2 := by decide

end PascalUnit
