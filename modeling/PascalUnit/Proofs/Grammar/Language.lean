import Mathlib.Computability.Language
import PascalUnit.Grammar.Productions

/-!
# Languages of grammar pieces

Kinds of tokens are the letters here, and a piece stands for the words over them
that it derives.  Trees and source texts do not matter for that.

## Continuations

A word is viable for a language when some word of the language begins with it.
The questions a reader from left to right has to answer are all about viable
words: which letter may come first, and which may come after a complete word.
-/

namespace PascalUnit

open scoped Computability

def kinds (xs : List PlacedToken) : List Token :=
  xs.map PlacedToken.token

@[simp] theorem kinds_nil : kinds [] = [] := rfl

@[simp] theorem kinds_cons (x : PlacedToken) (xs : List PlacedToken) :
    kinds (x :: xs) = x.token :: kinds xs := rfl

@[simp] theorem kinds_append (xs ys : List PlacedToken) :
    kinds (xs ++ ys) = kinds xs ++ kinds ys :=
  List.map_append

@[simp] theorem length_kinds (xs : List PlacedToken) : (kinds xs).length = xs.length :=
  List.length_map _

namespace Continuation

variable {α : Type} {L M : Language α}

/-- Some word of the language begins with `w`. -/
def Viable (L : Language α) (w : List α) : Prop :=
  ∃ v, w ++ v ∈ L

def Starts (L : Language α) (k : α) : Prop :=
  Viable L [k]

/-- A complete word of the language can go on with `k` to a longer one. -/
def Extends (L : Language α) (k : α) : Prop :=
  ∃ u ∈ L, Viable L (u ++ [k])

/-- One letter tells whether a word of `L` goes on or a word of `M` begins. -/
def Separated (L M : Language α) : Prop :=
  ∀ k, Extends L k → ¬ Starts M k

/-!
## Viable words
-/

theorem viable_of_mem {w : List α} (h : w ∈ L) : Viable L w :=
  ⟨[], by simpa using h⟩

theorem Viable.of_append {u v : List α} (h : Viable L (u ++ v)) : Viable L u := by
  rcases h with ⟨r, hr⟩
  exact ⟨v ++ r, by simpa using hr⟩

theorem Viable.shorten {u v : List α} (h : Viable L v) (huv : u <+: v) : Viable L u := by
  rcases huv with ⟨r, rfl⟩
  exact h.of_append

theorem Viable.starts {k : α} {w : List α} (h : Viable L (k :: w)) : Starts L k :=
  h.shorten ⟨w, rfl⟩

theorem extends_of_mem {u w : List α} {k : α} (hu : u ∈ L) (h : Viable L (u ++ k :: w)) :
    Extends L k :=
  ⟨u, hu, h.shorten ⟨w, by simp⟩⟩

theorem viable_add {w : List α} : Viable (L + M) w ↔ Viable L w ∨ Viable M w := by
  constructor
  · intro h
    rcases h with ⟨v, hv⟩
    rcases (Language.mem_add L M _).mp hv with hL | hM
    · exact Or.inl ⟨v, hL⟩
    · exact Or.inr ⟨v, hM⟩
  · intro h
    rcases h with ⟨v, hv⟩ | ⟨v, hv⟩
    · exact ⟨v, (Language.mem_add L M _).mpr (Or.inl hv)⟩
    · exact ⟨v, (Language.mem_add L M _).mpr (Or.inr hv)⟩

theorem viable_mul_of_left {w : List α} (hM : ∃ v, v ∈ M) (h : Viable L w) :
    Viable (L * M) w := by
  rcases h with ⟨v, hv⟩
  rcases hM with ⟨m, hm⟩
  exact ⟨v ++ m, by simpa using Language.append_mem_mul hv hm⟩

theorem viable_mul_of_right {u v : List α} (hu : u ∈ L) (h : Viable M v) :
    Viable (L * M) (u ++ v) := by
  rcases h with ⟨r, hr⟩
  exact ⟨r, by simpa using Language.append_mem_mul hu hr⟩

/-- A viable word of a product stays inside its first factor or has left it behind. -/
theorem viable_mul {w : List α} (hM : ∃ v, v ∈ M) :
    Viable (L * M) w ↔ Viable L w ∨ ∃ u ∈ L, ∃ v, Viable M v ∧ u ++ v = w := by
  constructor
  · intro h
    rcases h with ⟨r, hr⟩
    rcases Language.mem_mul.mp hr with ⟨a, ha, b, hb, hab⟩
    rcases List.append_eq_append_iff.mp hab with ⟨c, rfl, rfl⟩ | ⟨c, rfl, rfl⟩
    · exact Or.inr ⟨a, ha, c, ⟨r, hb⟩, rfl⟩
    · exact Or.inl ⟨c, ha⟩
  · intro h
    rcases h with h | ⟨u, hu, v, hv, rfl⟩
    · exact viable_mul_of_left hM h
    · exact viable_mul_of_right hu hv

theorem kstar_eq (L : Language α) : L∗ = L * L∗ + 1 := by
  rw [add_comm, Language.one_add_self_mul_kstar_eq_kstar]

/-!
## Separated languages
-/

/-- Where a word of `L` ends and one of `M` begins is settled by the words themselves. -/
theorem Separated.split_unique (h : Separated L M) {u u' v v' : List α} (hu : u ∈ L)
    (hu' : u' ∈ L) (hv : Viable M v) (hv' : Viable M v') (heq : u ++ v = u' ++ v') :
    u = u' ∧ v = v' := by
  rcases List.append_eq_append_iff.mp heq with ⟨c, rfl, rfl⟩ | ⟨c, rfl, rfl⟩
  · cases c with
    | nil => simp
    | cons k c =>
        exact absurd hv.starts (h k (extends_of_mem hu (viable_of_mem hu')))
  · cases c with
    | nil => simp
    | cons k c =>
        exact absurd hv'.starts (h k (extends_of_mem hu' (viable_of_mem hu)))

end Continuation

/-!
## The language of a piece
-/

namespace Piece

open Continuation

def language : Piece → Language Token
  | nothing => 1
  | token t => {[t]}
  | both p q => language p * language q
  | either p q => language p + language q
  | many p => (language p)∗
  | named _ p => language p

theorem mem_language_token {t : Token} {w : List Token} :
    w ∈ (token t).language ↔ w = [t] := Iff.rfl

theorem exists_mem_language (p : Piece) : ∃ w, w ∈ p.language := by
  induction p with
  | nothing => exact ⟨[], Language.nil_mem_one⟩
  | token t => exact ⟨[t], rfl⟩
  | both p q ihp ihq =>
      rcases ihp with ⟨u, hu⟩
      rcases ihq with ⟨v, hv⟩
      exact ⟨u ++ v, Language.append_mem_mul hu hv⟩
  | either p q ihp _ =>
      rcases ihp with ⟨u, hu⟩
      exact ⟨u, (Language.mem_add _ _ _).mpr (Or.inl hu)⟩
  | many p _ => exact ⟨[], Language.nil_mem_kstar _⟩
  | named r p ih => exact ih

/-!
## Derivations
-/

section Inversion

variable {leafText : PlacedToken → String}

theorem derives_both {p q : Piece} {xs : List PlacedToken} {ts : List Tree} :
    Derives leafText (both p q) xs ts ↔
      ∃ ys zs us vs, xs = ys ++ zs ∧ ts = us ++ vs ∧ Derives leafText p ys us ∧
        Derives leafText q zs vs := by
  constructor
  · intro h
    cases h with
    | both hp hq => exact ⟨_, _, _, _, rfl, rfl, hp, hq⟩
  · intro h
    rcases h with ⟨ys, zs, us, vs, rfl, rfl, hp, hq⟩
    exact .both hp hq

theorem derives_either {p q : Piece} {xs : List PlacedToken} {ts : List Tree} :
    Derives leafText (either p q) xs ts ↔ Derives leafText p xs ts ∨ Derives leafText q xs ts := by
  constructor
  · intro h
    cases h with
    | first hp => exact Or.inl hp
    | second hq => exact Or.inr hq
  · intro h
    rcases h with hp | hq
    · exact .first hp
    · exact .second hq

theorem derives_named {r : Rule} {p : Piece} {xs : List PlacedToken} {ts : List Tree} :
    Derives leafText (named r p) xs ts ↔ ∃ us, ts = [.node r us] ∧ Derives leafText p xs us := by
  constructor
  · intro h
    cases h with
    | named hp => exact ⟨_, rfl, hp⟩
  · intro h
    rcases h with ⟨us, rfl, hp⟩
    exact .named hp

theorem derives_many {p : Piece} {xs : List PlacedToken} {ts : List Tree} :
    Derives leafText (many p) xs ts ↔
      xs = [] ∧ ts = [] ∨
        ∃ ys zs us vs, xs = ys ++ zs ∧ ts = us ++ vs ∧ Derives leafText p ys us ∧
          Derives leafText (many p) zs vs := by
  constructor
  · intro h
    cases h with
    | stop => exact Or.inl ⟨rfl, rfl⟩
    | more hp hmany => exact Or.inr ⟨_, _, _, _, rfl, rfl, hp, hmany⟩
  · intro h
    rcases h with ⟨rfl, rfl⟩ | ⟨ys, zs, us, vs, rfl, rfl, hp, hmany⟩
    · exact .stop
    · exact .more hp hmany

theorem derives_token {t : Token} {xs : List PlacedToken} {ts : List Tree} :
    Derives leafText (token t) xs ts ↔
      ∃ x : PlacedToken, x.token = t ∧ xs = [x] ∧ ts = [.leaf (leafText x)] := by
  constructor
  · intro h
    cases h with
    | token x => exact ⟨x, rfl, rfl, rfl⟩
  · intro h
    rcases h with ⟨x, rfl, rfl, rfl⟩
    exact .token x

end Inversion

theorem Derives.kinds_mem_language {leafText : PlacedToken → String} {p : Piece}
    {xs : List PlacedToken} {ts : List Tree} (h : Derives leafText p xs ts) :
    kinds xs ∈ p.language := by
  induction h with
  | nothing => exact Language.nil_mem_one
  | token x => rfl
  | both _ _ ihp ihq =>
      rw [kinds_append]
      exact Language.append_mem_mul ihp ihq
  | first _ ih => exact (Language.mem_add _ _ _).mpr (Or.inl ih)
  | second _ ih => exact (Language.mem_add _ _ _).mpr (Or.inr ih)
  | stop => exact Language.nil_mem_kstar _
  | more _ _ ihp ihmany =>
      rw [kinds_append, language, kstar_eq]
      exact (Language.mem_add _ _ _).mpr (Or.inl (Language.append_mem_mul ihp ihmany))
  | named _ ih => exact ih

/-- Every word of the language is derived, whatever the texts of its tokens. -/
theorem exists_derives_of_kinds_mem (leafText : PlacedToken → String) {p : Piece}
    {xs : List PlacedToken} (h : kinds xs ∈ p.language) :
    ∃ ts, Derives leafText p xs ts := by
  induction p generalizing xs with
  | nothing =>
      have hnil : xs = [] := List.map_eq_nil_iff.mp h
      subst hnil
      exact ⟨[], .nothing⟩
  | token t =>
      rcases List.map_eq_singleton_iff.mp h with ⟨x, rfl, rfl⟩
      exact ⟨[.leaf (leafText x)], .token x⟩
  | both p q ihp ihq =>
      rcases Language.mem_mul.mp h with ⟨u, hu, v, hv, huv⟩
      rcases List.map_eq_append_iff.mp huv.symm with ⟨ys, zs, rfl, rfl, rfl⟩
      rcases ihp hu with ⟨ts, hts⟩
      rcases ihq hv with ⟨us, hus⟩
      exact ⟨ts ++ us, .both hts hus⟩
  | either p q ihp ihq =>
      rcases (Language.mem_add _ _ _).mp h with hp | hq
      · rcases ihp hp with ⟨ts, hts⟩
        exact ⟨ts, .first hts⟩
      · rcases ihq hq with ⟨ts, hts⟩
        exact ⟨ts, .second hts⟩
  | many p ih =>
      rcases Language.mem_kstar.mp h with ⟨words, hwords, hmem⟩
      -- one round of the repetition for each word of the list
      induction words generalizing xs with
      | nil =>
          have hnil : xs = [] := List.map_eq_nil_iff.mp hwords
          subst hnil
          exact ⟨[], .stop⟩
      | cons w words ihwords =>
          rw [List.flatten_cons] at hwords
          rcases List.map_eq_append_iff.mp hwords with ⟨ys, zs, rfl, hys, hzs⟩
          have hw : kinds ys ∈ p.language := by
            rw [kinds, hys]
            exact hmem w List.mem_cons_self
          have hrest : ∀ y ∈ words, y ∈ p.language := by
            intro y hy
            exact hmem y (List.mem_cons_of_mem w hy)
          rcases ih hw with ⟨ts, hts⟩
          rcases ihwords (Language.mem_kstar.mpr ⟨words, hzs, hrest⟩) hzs hrest with ⟨us, hus⟩
          exact ⟨ts ++ us, .more hts hus⟩
  | named r p ih =>
      rcases ih h with ⟨ts, hts⟩
      exact ⟨[.node r ts], .named hts⟩

end Piece
end PascalUnit
