/-!
# Slices by byte offset

Places in a source are counted in bytes of its UTF-8 form, while the text
itself is a list of characters.  A byte offset is a boundary when it falls
between two characters; only a slice between two boundaries is text.
-/

namespace PascalUnit

structure Span where
  start : Nat
  stop : Nat
  deriving DecidableEq, Repr

namespace Text

def byteLength : List Char → Nat
  | [] => 0
  | c :: cs => c.utf8Size + byteLength cs

/-- The text after the first `n` bytes, when `n` is a boundary. -/
def dropBytes? : Nat → List Char → Option (List Char)
  | 0, cs => some cs
  | _ + 1, [] => none
  | n + 1, c :: cs =>
      if c.utf8Size ≤ n + 1 then dropBytes? (n + 1 - c.utf8Size) cs else none

def takeBytes? : Nat → List Char → Option (List Char)
  | 0, _ => some []
  | _ + 1, [] => none
  | n + 1, c :: cs =>
      if c.utf8Size ≤ n + 1 then
        (takeBytes? (n + 1 - c.utf8Size) cs).map (c :: ·)
      else none

/-- The text a span covers, when both of its ends are boundaries in order. -/
def slice? (cs : List Char) (s : Span) : Option (List Char) :=
  if s.start ≤ s.stop then
    (dropBytes? s.start cs).bind (takeBytes? (s.stop - s.start))
  else none

/-!
## Byte length and concatenation
-/

@[simp] theorem byteLength_nil : byteLength [] = 0 := rfl

@[simp] theorem byteLength_cons (c : Char) (cs : List Char) :
    byteLength (c :: cs) = c.utf8Size + byteLength cs := rfl

@[simp] theorem byteLength_append (a b : List Char) :
    byteLength (a ++ b) = byteLength a + byteLength b := by
  induction a with
  | nil => simp
  | cons c a ih => simp [ih, Nat.add_assoc]

theorem dropBytes?_append (a b : List Char) :
    dropBytes? (byteLength a) (a ++ b) = some b := by
  induction a with
  | nil => simp [dropBytes?]
  | cons c a ih =>
      have hpos : 0 < c.utf8Size := Char.utf8Size_pos c
      obtain ⟨n, hn⟩ : ∃ n, byteLength (c :: a) = n + 1 :=
        ⟨c.utf8Size + byteLength a - 1, by simp; omega⟩
      have hle : c.utf8Size ≤ n + 1 := by simp at hn; omega
      have hrest : n + 1 - c.utf8Size = byteLength a := by simp at hn; omega
      rw [hn, List.cons_append, dropBytes?, if_pos hle, hrest, ih]

theorem takeBytes?_append (a b : List Char) :
    takeBytes? (byteLength a) (a ++ b) = some a := by
  induction a with
  | nil => cases b <;> rfl
  | cons c a ih =>
      have hpos : 0 < c.utf8Size := Char.utf8Size_pos c
      obtain ⟨n, hn⟩ : ∃ n, byteLength (c :: a) = n + 1 :=
        ⟨c.utf8Size + byteLength a - 1, by simp; omega⟩
      have hle : c.utf8Size ≤ n + 1 := by simp at hn; omega
      have hrest : n + 1 - c.utf8Size = byteLength a := by simp at hn; omega
      rw [hn, List.cons_append, takeBytes?, if_pos hle, hrest, ih]
      rfl

theorem slice?_append (a b c : List Char) :
    slice? (a ++ (b ++ c)) ⟨byteLength a, byteLength a + byteLength b⟩ = some b := by
  simp [slice?, dropBytes?_append, takeBytes?_append]

/-!
## Boundaries
-/

/-- A text begins with a part that ends at byte `n`. -/
def IsBoundary (cs : List Char) (n : Nat) : Prop :=
  ∃ before after, cs = before ++ after ∧ byteLength before = n

theorem byteLength_pos {cs : List Char} (h : cs ≠ []) : 0 < byteLength cs := by
  cases cs with
  | nil => exact absurd rfl h
  | cons c cs =>
      have hpos := Char.utf8Size_pos c
      rw [byteLength_cons]
      omega

/-- Two divisions of a text at the same byte are the same. -/
theorem append_inj_of_byteLength {a b a' b' : List Char} (h : a ++ b = a' ++ b')
    (hlength : byteLength a = byteLength a') : a = a' ∧ b = b' := by
  have hdrop := dropBytes?_append a b
  have htake := takeBytes?_append a b
  rw [h, hlength, dropBytes?_append] at hdrop
  rw [h, hlength, takeBytes?_append] at htake
  exact ⟨(Option.some.inj htake).symm, (Option.some.inj hdrop).symm⟩

theorem dropBytes?_eq_some_iff {n : Nat} {cs rest : List Char} :
    dropBytes? n cs = some rest ↔ ∃ before, cs = before ++ rest ∧ byteLength before = n := by
  constructor
  · intro h
    fun_induction dropBytes? n cs with
    | case1 cs =>
        cases h
        exact ⟨[], rfl, rfl⟩
    | case2 n => cases h
    | case3 n c cs hle ih =>
        rcases ih h with ⟨before, rfl, hbefore⟩
        refine ⟨c :: before, rfl, ?_⟩
        rw [byteLength_cons, hbefore]
        omega
    | case4 n c cs hgt => cases h
  · intro h
    rcases h with ⟨before, rfl, rfl⟩
    exact dropBytes?_append before rest

theorem takeBytes?_eq_some_iff {n : Nat} {cs text : List Char} :
    takeBytes? n cs = some text ↔ ∃ after, cs = text ++ after ∧ byteLength text = n := by
  constructor
  · intro h
    fun_induction takeBytes? n cs generalizing text with
    | case1 cs =>
        cases h
        exact ⟨cs, rfl, rfl⟩
    | case2 n => cases h
    | case3 n c cs hle ih =>
        rcases Option.map_eq_some_iff.mp h with ⟨rest, hrest, rfl⟩
        rcases ih hrest with ⟨after, rfl, hlength⟩
        refine ⟨after, rfl, ?_⟩
        rw [byteLength_cons, hlength]
        omega
    | case4 n c cs hgt => cases h
  · intro h
    rcases h with ⟨after, rfl, rfl⟩
    exact takeBytes?_append text after

theorem slice?_eq_some_iff {cs text : List Char} {s : Span} :
    slice? cs s = some text ↔
      ∃ before after, cs = before ++ (text ++ after) ∧ byteLength before = s.start ∧
        byteLength before + byteLength text = s.stop := by
  constructor
  · intro h
    rw [slice?] at h
    split at h
    · rcases Option.bind_eq_some_iff.mp h with ⟨rest, hdrop, htake⟩
      rcases dropBytes?_eq_some_iff.mp hdrop with ⟨before, rfl, hbefore⟩
      rcases takeBytes?_eq_some_iff.mp htake with ⟨after, rfl, htext⟩
      exact ⟨before, after, rfl, hbefore, by omega⟩
    · cases h
  · intro h
    rcases h with ⟨before, after, rfl, hstart, hstop⟩
    rcases s with ⟨start, stop⟩
    rcases hstart with rfl
    rcases hstop with rfl
    exact slice?_append before text after

theorem slice?_after {before after text : List Char} {stop : Nat}
    (h : slice? (before ++ after) ⟨byteLength before, stop⟩ = some text) :
    ∃ rest, after = text ++ rest ∧ stop = byteLength (before ++ text) := by
  rcases slice?_eq_some_iff.mp h with ⟨before', rest, heq, hstart, hstop⟩
  rcases append_inj_of_byteLength heq hstart.symm with ⟨rfl, rfl⟩
  refine ⟨rest, rfl, ?_⟩
  rw [byteLength_append]
  exact hstop.symm

end Text
end PascalUnit
