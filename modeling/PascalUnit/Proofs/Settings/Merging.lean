import PascalUnit.Settings

/-!
# What merging keeps of a field

A field is a scalar in a group.  Laying a value over settings changes a field when
the value gives it another scalar, and leaves it alone otherwise; what else the
value holds makes no difference.  Of several values laid over each other, the last
one that gives something to a field decides.
-/

namespace PascalUnit
namespace Settings

/-!
## The last of several
-/

def lastGiven {α β : Type} (give : α → Option β) (xs : List α) : Option β :=
  xs.reverse.findSome? give

section

variable {α β : Type} {give : α → Option β}

@[simp] theorem lastGiven_nil : lastGiven give [] = none := rfl

theorem lastGiven_cons (x : α) (xs : List α) :
    lastGiven give (x :: xs) = (lastGiven give xs).or (give x) := by
  rw [lastGiven, List.reverse_cons, List.findSome?_append, List.findSome?_singleton]
  rfl

/-- At most one element gives anything. -/
def GivesOnce (give : α → Option β) (xs : List α) : Prop :=
  xs.Pairwise fun x y => give x = none ∨ give y = none

theorem GivesOnce.perm {xs ys : List α} (h : GivesOnce give xs) (hperm : xs.Perm ys) :
    GivesOnce give ys :=
  List.Pairwise.perm h hperm Or.symm

theorem GivesOnce.lastGiven_perm {xs ys : List α} (h : GivesOnce give xs)
    (hperm : xs.Perm ys) : lastGiven give ys = lastGiven give xs := by
  induction hperm with
  | nil => rfl
  | cons x _ ih =>
      rw [lastGiven_cons, lastGiven_cons, ih (List.pairwise_cons.mp h).2]
  | swap x y zs =>
      have hnone : give y = none ∨ give x = none := (List.pairwise_cons.mp h).1 x (by simp)
      simp only [lastGiven_cons, Option.or_assoc]
      rcases hnone with hnone | hnone <;> simp [hnone]
  | trans hfirst _ ih ih' =>
      rw [ih' (h.perm hfirst), ih h]

end

/-!
## Entries of groups
-/

namespace Value

def entryNamed? (name : String) (v : Value) : Option Value :=
  v.entries.lookup name

def namedValue? (name : String) (e : String × Value) : Option Value :=
  if e.1 = name then some e.2 else none

def isScalar : Value → Bool
  | scalar _ _ => true
  | _ => false

theorem lookup_cons (n k : String) (v : Value) (es : List (String × Value)) :
    ((k, v) :: es).lookup n = if n = k then some v else es.lookup n := by
  by_cases hn : n = k
  · simp [hn]
  · rw [List.lookup_cons, beq_false_of_ne hn, if_neg hn]

theorem lookup_put (name n : String) (v : Value) (es : List (String × Value)) :
    (put name v es).lookup n = if n = name then some v else es.lookup n := by
  induction es with
  | nil => exact lookup_cons n name v []
  | cons e es ih =>
      rcases e with ⟨k, old⟩
      rw [put]
      by_cases hk : k = name
      · subst hk
        rw [if_pos rfl, lookup_cons, lookup_cons]
        by_cases hn : n = k <;> simp [hn]
      · rw [if_neg hk, lookup_cons, lookup_cons, ih]
        by_cases hn : n = k
        · subst hn
          simp [hk]
        · simp [hn]

theorem entryNamed?_updateEntry (name n : String) (change : Option Value → Value) (v : Value) :
    (v.updateEntry name change).entryNamed? n =
      if n = name then some (change (v.entryNamed? name)) else v.entryNamed? n := by
  cases v with
  | group origin es => exact lookup_put name n _ es
  | unset | scalar | list => exact lookup_cons n name (change none) []

theorem laidOver_of_isScalar {v : Value} (h : v.isScalar = true) (below : Option Value) :
    laidOver below v = v := by
  cases v with
  | scalar origin s => simp [laidOver]
  | unset | list | group => cases h

/-- An entry of a merged group is the last scalar laid over it. -/
theorem entryNamed?_laidOverEntries {n : String} {es : List (String × Value)}
    (h : ∀ e ∈ es, e.1 = n → e.2.isScalar = true) (below : Value) :
    (laidOverEntries below es).entryNamed? n =
      (lastGiven (namedValue? n) es).or (below.entryNamed? n) := by
  induction es generalizing below with
  | nil => rw [laidOverEntries, lastGiven_nil, Option.none_or]
  | cons e es ih =>
      rcases e with ⟨name, v⟩
      rw [List.forall_mem_cons] at h
      rw [laidOverEntries, ih h.2, entryNamed?_updateEntry, lastGiven_cons, Option.or_assoc]
      by_cases hn : name = n
      · subst hn
        simp [namedValue?, laidOver_of_isScalar (h.1 rfl)]
      · have hn' : n ≠ name := Ne.symm hn
        simp [namedValue?, hn, hn']

end Value

/-!
## Fields
-/

namespace Field

def peek (f : Field) (root : Value) : Option Value :=
  (root.entryNamed? f.group).bind fun group => group.entryNamed? f.name

/-- What a value laid over a key gives to a field. -/
def given? (f : Field) (key : Key) (v : Value) : Option Value :=
  if key.first = f.group then
    match key.steps with
    | [] => lastGiven (Value.namedValue? f.name) v.entries
    | .entry name :: _ => if name = f.name then some v else none
    | .item _ :: _ => none
  else none

/-- A value at a key leaves a field alone, or gives it one scalar. -/
inductive Admits (f : Field) : Key → Value → Prop where
  /-- It belongs to another group. -/
  | elsewhere {key : Key} {v : Value} : key.first ≠ f.group → Admits f key v
  /-- It is laid over the group of the field, and holds one entry for it at most, a scalar. -/
  | within {origin : Option String} {es : List (String × Value)} :
      (∀ e ∈ es, e.1 = f.name → e.2.isScalar = true) →
        GivesOnce (Value.namedValue? f.name) es → Admits f ⟨f.group, []⟩ (.group origin es)
  /-- It belongs to another entry of the group. -/
  | beside {name : String} {more : List Step} {v : Value} :
      name ≠ f.name → Admits f ⟨f.group, .entry name :: more⟩ v
  /-- It is a scalar for the field. -/
  | direct {v : Value} : v.isScalar = true → Admits f ⟨f.group, [.entry f.name]⟩ v

variable {f : Field} {key : Key} {v : Value}

/-- Laying a value over a key gives a field its value, or leaves it alone. -/
theorem Admits.peek_assign (h : f.Admits key v) (root : Value) :
    f.peek (root.assign key v) = (f.given? key v).or (f.peek root) := by
  rw [peek, peek, Value.assign, Value.entryNamed?_updateEntry]
  cases h with
  | elsewhere hfirst =>
      have hgroup : f.group ≠ key.first := Ne.symm hfirst
      simp [given?, hfirst, hgroup]
  | @within origin es hentries honce =>
      simp only [if_true, Option.bind_some, given?, Value.overAt, Value.laidOver, Value.entries]
      rw [Value.entryNamed?_laidOverEntries hentries]
      cases root.entryNamed? f.group with
      | none => rfl
      | some below => rfl
  | @beside name more v hname =>
      have hname' : f.name ≠ name := Ne.symm hname
      simp only [if_true, Option.bind_some, given?, if_neg hname, Option.none_or, Value.overAt,
        Value.entryNamed?_updateEntry, if_neg hname']
      cases root.entryNamed? f.group with
      | none => rfl
      | some below => rfl
  | direct hscalar =>
      simp only [if_true, Option.bind_some, given?, Value.overAt, Value.entryNamed?_updateEntry,
        Value.laidOver_of_isScalar hscalar, Option.some_or]

end Field

/-!
## Files
-/

/-- The key that an outermost name of a file stands for. -/
def outermostKey (name : String) : Key :=
  (Key.parse? name).getD (Key.single name)

namespace Field

def entryGiven? (f : Field) (origin : Option String) (e : String × Toml.Value) : Option Value :=
  f.given? (outermostKey e.1) (.ofToml origin e.2)

/-- A table leaves a field alone, or gives it one scalar. -/
structure AdmitsTable (f : Field) (origin : Option String)
    (table : List (String × Toml.Value)) : Prop where
  entries : ∀ e ∈ table, f.Admits (outermostKey e.1) (.ofToml origin e.2)
  once : GivesOnce (f.entryGiven? origin) table

end Field
end Settings
end PascalUnit
