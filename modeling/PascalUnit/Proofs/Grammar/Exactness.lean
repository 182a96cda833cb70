import PascalUnit.Grammar.Reading
import PascalUnit.Proofs.Grammar.Language

/-!
# Exact readings

A reading of a piece is exact when it reports two things about the tokens at its
cursor.  It matches the longest word of the piece's language that they begin
with, or refuses because there is none.  And its stall is the end of the longest
viable word they begin with, together with every kind that would have made it
longer.

## Orderly pieces

Ordered choice and greedy repetition lose words in general.  They lose none when
one letter of lookahead tells a word that goes on from one that begins, and when
an alternative that succeeds leaves nothing for the later ones.  A piece built
that way is orderly, and the readings of orderly pieces are exact.
-/

namespace PascalUnit

open scoped Computability
open Continuation

variable {L M : Language Token}

/-!
## Longest words and furthest places
-/

/-- Of the words of `L` that `ks` begins with, `w` is the longest. -/
structure Longest (L : Language Token) (ks w : List Token) : Prop where
  isPrefix : w <+: ks
  mem : w ∈ L
  longest : ∀ v ∈ L, v <+: ks → v <+: w

/-- `seen` is as far as `ks` stays viable for `L`, and `wanted` is what would lead further. -/
structure Furthest (L : Language Token) (ks seen wanted : List Token) : Prop where
  isPrefix : seen <+: ks
  viable : Viable L seen
  mem_wanted : ∀ k, k ∈ wanted ↔ Viable L (seen ++ [k])
  refused : ∀ k ∈ wanted, ¬ seen ++ [k] <+: ks

namespace Furthest

variable {ks seen wanted seen' wanted' : List Token}

theorem prefix_seen (h : Furthest L ks seen wanted) {w : List Token} (hw : w <+: ks)
    (hviable : Viable L w) : w <+: seen := by
  rcases List.prefix_or_prefix_of_prefix hw h.isPrefix with hle | hge
  · exact hle
  · rcases hge with ⟨rest, rfl⟩
    cases rest with
    | nil => simp
    | cons k rest =>
        have hstep : seen ++ [k] <+: seen ++ k :: rest := ⟨rest, by simp⟩
        have hwanted : k ∈ wanted := (h.mem_wanted k).mpr (hviable.shorten hstep)
        exact absurd (hstep.trans hw) (h.refused k hwanted)

theorem add_of_lt (h : Furthest L ks seen wanted) (h' : Furthest M ks seen' wanted')
    (hlt : seen.length < seen'.length) : Furthest (L + M) ks seen' wanted' where
  isPrefix := h'.isPrefix
  viable := viable_add.mpr (Or.inr h'.viable)
  mem_wanted := by
    intro k
    rw [h'.mem_wanted, viable_add]
    constructor
    · exact Or.inr
    · intro hword
      rcases hword with hL | hM
      · have hle := (h.prefix_seen h'.isPrefix hL.of_append).length_le
        omega
      · exact hM
  refused := h'.refused

theorem add_of_eq (h : Furthest L ks seen wanted) (h' : Furthest M ks seen wanted') :
    Furthest (L + M) ks seen (wanted ++ wanted') where
  isPrefix := h.isPrefix
  viable := viable_add.mpr (Or.inl h.viable)
  mem_wanted := by
    intro k
    rw [List.mem_append, h.mem_wanted, h'.mem_wanted, viable_add]
  refused := by
    intro k hk
    rcases List.mem_append.mp hk with hk | hk
    · exact h.refused k hk
    · exact h'.refused k hk

theorem seen_eq_of_length (h : Furthest L ks seen wanted) (h' : Furthest M ks seen' wanted')
    (hlength : seen.length = seen'.length) : seen = seen' :=
  (List.prefix_of_prefix_length_le h.isPrefix h'.isPrefix hlength.le).eq_of_length hlength

/-!
## Products

A row is read by `L` first; `word` is what `L` takes of it and `later` is what
is left for `M`.
-/

variable {word later : List Token}

/-- Behind the longest word of `L`, a product goes on inside `L` or with `M` from there. -/
theorem viable_mul_snoc (hsep : Separated L M) (hM : ∃ v, v ∈ M) (hlong : Longest L ks word)
    {w : List Token} (hw : w <+: ks) (hword : word <+: w) (k : Token) :
    Viable (L * M) (w ++ [k]) ↔
      Viable L (w ++ [k]) ∨ ∃ v, w = word ++ v ∧ Viable M (v ++ [k]) := by
  constructor
  · intro h
    rcases (viable_mul hM).mp h with hL | ⟨u, hu, v, hv, huv⟩
    · exact Or.inl hL
    · rcases List.eq_nil_or_concat' v with rfl | ⟨v, k', rfl⟩
      · rw [List.append_nil] at huv
        exact Or.inl (huv ▸ viable_of_mem hu)
      · rw [← List.append_assoc] at huv
        rcases List.append_inj' huv rfl with ⟨rfl, hk⟩
        obtain rfl : k' = k := by simpa using hk
        rcases hlong.longest u hu ((List.prefix_append u v).trans hw) with ⟨c, hc⟩
        cases c with
        | nil =>
            rw [List.append_nil] at hc
            exact Or.inr ⟨v, by rw [hc], hv⟩
        | cons first c =>
            -- `v` would have to begin where `L` still goes on
            exfalso
            rcases hword with ⟨rest, hrest⟩
            rw [← hc, List.append_assoc] at hrest
            have hvrest : first :: (c ++ rest) = v := by
              simpa using List.append_cancel_left hrest
            rw [← hvrest] at hv
            exact hsep first (extends_of_mem hu (hc ▸ viable_of_mem hlong.mem)) hv.starts
  · intro h
    rcases h with h | ⟨v, rfl, h⟩
    · exact viable_mul_of_left hM h
    · rw [List.append_assoc]
      exact viable_mul_of_right hlong.mem h

/-- Nothing of `M` is viable where `L` was viable beyond its longest word. -/
theorem seen_eq_nil_of_beyond (hsep : Separated L M) (hlong : Longest L (word ++ later) word)
    {k : Token} {rest : List Token} (h : Furthest L (word ++ later) (word ++ k :: rest) wanted)
    (h' : Furthest M later seen' wanted') : seen' = [] := by
  cases seen' with
  | nil => rfl
  | cons k' rest' =>
      exfalso
      have hk : k :: rest <+: later := (List.prefix_append_right_inj word).mp h.isPrefix
      have heq : k' = k := by
        rcases hk with ⟨a, ha⟩
        rcases h'.isPrefix with ⟨b, hb⟩
        rw [← ha, List.cons_append, List.cons_append] at hb
        exact (List.cons.inj hb).1
      subst heq
      exact hsep k' (extends_of_mem hlong.mem h.viable) h'.viable.starts

theorem mul_beyond (hsep : Separated L M) (hM : ∃ v, v ∈ M) (hlong : Longest L ks word)
    {k : Token} {rest : List Token} (h : Furthest L ks (word ++ k :: rest) wanted) :
    Furthest (L * M) ks (word ++ k :: rest) wanted where
  isPrefix := h.isPrefix
  viable := viable_mul_of_left hM h.viable
  mem_wanted := by
    intro j
    rw [h.mem_wanted, viable_mul_snoc hsep hM hlong h.isPrefix (List.prefix_append _ _)]
    constructor
    · exact Or.inl
    · intro hword
      rcases hword with hL | ⟨v, hv, hM'⟩
      · exact hL
      · obtain rfl : k :: rest = v := List.append_cancel_left hv
        exact absurd hM'.starts (hsep k (extends_of_mem hlong.mem h.viable))
  refused := h.refused

theorem mul_behind (hsep : Separated L M) (hM : ∃ v, v ∈ M)
    (hlong : Longest L (word ++ later) word) (h : Furthest L (word ++ later) word wanted)
    (h' : Furthest M later seen' wanted') (hne : seen' ≠ []) :
    Furthest (L * M) (word ++ later) (word ++ seen') wanted' where
  isPrefix := (List.prefix_append_right_inj word).mpr h'.isPrefix
  viable := viable_mul_of_right hlong.mem h'.viable
  mem_wanted := by
    intro k
    have hseen : word ++ seen' <+: word ++ later :=
      (List.prefix_append_right_inj word).mpr h'.isPrefix
    rw [h'.mem_wanted, viable_mul_snoc hsep hM hlong hseen (List.prefix_append _ _)]
    constructor
    · intro hM'
      exact Or.inr ⟨seen', rfl, hM'⟩
    · intro hword
      rcases hword with hL | ⟨v, hv, hM'⟩
      · have hle := (h.prefix_seen hseen hL.of_append).length_le
        rw [List.length_append] at hle
        exact absurd (List.length_eq_zero_iff.mp (by omega)) hne
      · obtain rfl : seen' = v := List.append_cancel_left hv
        exact hM'
  refused := by
    intro k hk hfront
    rw [List.append_assoc] at hfront
    exact h'.refused k hk ((List.prefix_append_right_inj word).mp hfront)

theorem mul_at (hsep : Separated L M) (hM : ∃ v, v ∈ M)
    (hlong : Longest L (word ++ later) word) (h : Furthest L (word ++ later) word wanted)
    (h' : Furthest M later [] wanted') :
    Furthest (L * M) (word ++ later) word (wanted ++ wanted') where
  isPrefix := h.isPrefix
  viable := viable_mul_of_left hM h.viable
  mem_wanted := by
    intro k
    rw [List.mem_append, h.mem_wanted, h'.mem_wanted,
      viable_mul_snoc hsep hM hlong h.isPrefix (List.prefix_refl _)]
    constructor
    · intro h
      rcases h with hL | hM'
      · exact Or.inl hL
      · exact Or.inr ⟨[], by simp, hM'⟩
    · intro h
      rcases h with hL | ⟨v, hv, hM'⟩
      · exact Or.inl hL
      · obtain rfl : v = [] := by simpa using hv
        exact Or.inr hM'
  refused := by
    intro k hk hfront
    rcases List.mem_append.mp hk with hk | hk
    · exact h.refused k hk hfront
    · exact h'.refused k hk ((List.prefix_append_right_inj word).mp hfront)

end Furthest

/-!
## Stalls
-/

def Stall.Exact (L : Language Token) (c : Cursor) (s : Stall) : Prop :=
  ∃ seen, s.place = c.place + seen.length ∧ Furthest L (kinds c.rest) seen s.wanted

namespace Stall

theorem join_of_lt {s t : Stall} (h : s.place < t.place) : s.join t = t := by
  rw [join, if_pos h]

theorem join_of_gt {s t : Stall} (h : t.place < s.place) : s.join t = s := by
  rw [join, if_neg (by omega), if_pos h]

theorem join_of_eq {s t : Stall} (h : s.place = t.place) :
    s.join t = ⟨s.place, s.wanted ++ t.wanted⟩ := by
  rw [join, if_neg (by omega), if_neg (by omega)]

theorem join_reached {s : Stall} {n : Nat} (h : n ≤ s.place) : s.join (reached n) = s := by
  rcases Nat.lt_or_eq_of_le h with hlt | heq
  · exact join_of_gt hlt
  · rw [join_of_eq heq.symm, reached, List.append_nil]

namespace Exact

theorem place_le {c : Cursor} {s : Stall} (h : s.Exact L c) : c.place ≤ s.place := by
  rcases h with ⟨seen, hplace, _⟩
  omega

theorem join_add {c : Cursor} {s t : Stall} (hs : s.Exact L c) (ht : t.Exact M c) :
    (s.join t).Exact (L + M) c := by
  rcases hs with ⟨seen, hplace, hfurthest⟩
  rcases ht with ⟨seen', hplace', hfurthest'⟩
  rcases Nat.lt_trichotomy s.place t.place with hlt | heq | hgt
  · rw [join_of_lt hlt]
    exact ⟨seen', hplace', hfurthest.add_of_lt hfurthest' (by omega)⟩
  · rw [join_of_eq heq]
    have hseen := hfurthest.seen_eq_of_length hfurthest' (by omega)
    subst hseen
    exact ⟨seen, hplace, hfurthest.add_of_eq hfurthest'⟩
  · rw [join_of_gt hgt, add_comm]
    exact ⟨seen, hplace, hfurthest'.add_of_lt hfurthest (by omega)⟩

/-- The stall of a reading in two steps, `L` up to `d` and `M` from there. -/
theorem join_mul {c d : Cursor} {s t : Stall} {xs : List PlacedToken}
    (hsep : Separated L M) (hM : ∃ v, v ∈ M) (hrest : c.rest = xs ++ d.rest)
    (hplace : d.place = c.place + xs.length) (hlong : Longest L (kinds c.rest) (kinds xs))
    (hs : s.Exact L c) (ht : t.Exact M d) : (s.join t).Exact (L * M) c := by
  rcases hs with ⟨seen, hsplace, hseen⟩
  rcases ht with ⟨seen', htplace, hseen'⟩
  rcases hseen.prefix_seen hlong.isPrefix (viable_of_mem hlong.mem) with ⟨beyond, rfl⟩
  rw [List.length_append, length_kinds] at hsplace
  have hkinds : kinds c.rest = kinds xs ++ kinds d.rest := by
    rw [hrest, kinds_append]
  cases beyond with
  | cons k rest =>
      rw [hkinds] at hlong hseen
      have hnil := Furthest.seen_eq_nil_of_beyond hsep hlong hseen hseen'
      rw [hnil, List.length_nil] at htplace
      rw [List.length_cons] at hsplace
      refine ⟨kinds xs ++ k :: rest, ?_, ?_⟩
      · rw [join_of_gt (by omega), List.length_append, length_kinds, List.length_cons, hsplace]
      · rw [join_of_gt (by omega), hkinds]
        exact Furthest.mul_beyond hsep hM hlong hseen
  | nil =>
      rw [List.append_nil, hkinds] at hseen
      rw [hkinds] at hlong
      rw [List.length_nil] at hsplace
      by_cases hnil : seen' = []
      · subst hnil
        rw [List.length_nil] at htplace
        refine ⟨kinds xs, ?_, ?_⟩
        · rw [join_of_eq (by omega), length_kinds]
          exact hsplace
        · rw [join_of_eq (by omega), hkinds]
          exact Furthest.mul_at hsep hM hlong hseen hseen'
      · have hpos := List.length_pos_iff.mpr hnil
        refine ⟨kinds xs ++ seen', ?_, ?_⟩
        · rw [join_of_lt (by omega), List.length_append, length_kinds]
          omega
        · rw [join_of_lt (by omega), hkinds]
          exact Furthest.mul_behind hsep hM hlong hseen hseen' hnil

end Exact
end Stall

/-!
## Readings
-/

/-- A reading at `c` is right about the longest word of `L` there and about the furthest place. -/
inductive Reading.Exact (L : Language Token) (c : Cursor) : Reading → Prop where
  | matched {ts : List Tree} {d : Cursor} {s : Stall} (xs : List PlacedToken) :
      c.rest = xs ++ d.rest → d.place = c.place + xs.length →
        Longest L (kinds c.rest) (kinds xs) → s.Exact L c → Exact L c (.matched ts d s)
  | refused {s : Stall} :
      (∀ w ∈ L, ¬ w <+: kinds c.rest) → s.Exact L c → Exact L c (.refused s)

/-- Once a word of `L` has been read, `M` knows no word that leads further than `L` does. -/
def Supersedes (L M : Language Token) : Prop :=
  ∀ u ∈ L, ∀ v, u <+: v → (v ∈ M → v ∈ L) ∧ (Viable M v → Viable L v)

namespace Reading
namespace Exact

theorem nothing (c : Cursor) : Exact 1 c (.matched [] c (.reached c.place)) := by
  have hviable : ∀ w : List Token, Viable 1 w ↔ w = [] := by
    intro w
    constructor
    · intro h
      rcases h with ⟨v, hv⟩
      exact (List.append_eq_nil_iff.mp ((Language.mem_one _).mp hv)).1
    · intro heq
      subst heq
      exact viable_of_mem Language.nil_mem_one
  refine .matched [] rfl rfl ?_ ⟨[], rfl, ?_⟩
  · refine ⟨by simp, Language.nil_mem_one, ?_⟩
    intro v hv _
    rw [(Language.mem_one v).mp hv]
    exact List.nil_prefix
  · refine ⟨by simp, (hviable []).mpr rfl, ?_, ?_⟩
    · intro k
      rw [hviable]
      simp [Stall.reached]
    · intro k hk
      cases hk

theorem viable_singleton {t : Token} {w : List Token} :
    Viable ({[t]} : Language Token) w ↔ w = [] ∨ w = [t] := by
  constructor
  · intro h
    rcases h with ⟨v, hv⟩
    have hw : w ++ v = [t] := hv
    cases w with
    | nil => exact Or.inl rfl
    | cons k w =>
        rw [List.cons_append, List.cons.injEq] at hw
        rcases hw with ⟨rfl, hnil⟩
        rw [(List.append_eq_nil_iff.mp hnil).1]
        exact Or.inr rfl
  · intro h
    rcases h with rfl | rfl
    · exact ⟨[t], rfl⟩
    · exact ⟨[], rfl⟩

theorem token_refused {t : Token} {c : Cursor} (h : ¬ [t] <+: kinds c.rest) :
    Exact {[t]} c (.refused ⟨c.place, [t]⟩) := by
  refine .refused ?_ ⟨[], rfl, List.nil_prefix, viable_singleton.mpr (Or.inl rfl), ?_, ?_⟩
  · intro w heq
    subst heq
    exact h
  · intro k
    rw [viable_singleton]
    simp
  · intro k hk
    rw [List.mem_singleton.mp hk]
    exact h

theorem token_matched {ts : List Tree} {place : Nat} {x : PlacedToken}
    {rest : List PlacedToken} :
    Exact {[x.token]} ⟨place, x :: rest⟩
      (.matched ts ⟨place + 1, rest⟩ (.reached (place + 1))) := by
  have hfront : [x.token] <+: kinds (x :: rest) := ⟨kinds rest, rfl⟩
  refine .matched [x] rfl rfl ⟨hfront, rfl, ?_⟩ ⟨[x.token], rfl, hfront, ?_, ?_, ?_⟩
  · intro v heq _
    subst heq
    exact List.prefix_refl _
  · exact viable_of_mem rfl
  · intro k
    rw [viable_singleton]
    simp [Stall.reached]
  · intro k hk
    cases hk

/-!
A reading in two steps refuses with its first step, or goes on with the second.
-/

theorem mul_refused {c : Cursor} {s : Stall} (hM : ∃ v, v ∈ M)
    (h : Exact L c (.refused s)) : Exact (L * M) c (.refused s) := by
  cases h with
  | refused hnone hs =>
      rcases hs with ⟨seen, hplace, hseen⟩
      refine .refused ?_ ⟨seen, hplace, hseen.isPrefix, viable_mul_of_left hM hseen.viable, ?_,
        hseen.refused⟩
      · intro w hw hfront
        rcases Language.mem_mul.mp hw with ⟨a, ha, b, _, rfl⟩
        exact hnone a ha ((List.prefix_append a b).trans hfront)
      · intro k
        rw [hseen.mem_wanted, viable_mul hM]
        constructor
        · exact Or.inl
        · intro h
          rcases h with hL | ⟨u, hu, v, _, huv⟩
          · exact hL
          · rcases List.eq_nil_or_concat' v with rfl | ⟨v, k', rfl⟩
            · rw [List.append_nil] at huv
              exact huv ▸ viable_of_mem hu
            · rw [← List.append_assoc] at huv
              rcases List.append_inj' huv rfl with ⟨rfl, _⟩
              exact absurd ((List.prefix_append u v).trans hseen.isPrefix) (hnone u hu)

/-- What `L` takes of a word of the product is what it takes of the row. -/
theorem prefix_of_mem_mul (hsep : Separated L M) {ks word later : List Token}
    (hks : ks = word ++ later) (hlong : Longest L ks word) {w : List Token} (hw : w ∈ L * M)
    (hfront : w <+: ks) : (∃ v ∈ M, w = word ++ v ∧ v <+: later) ∨ w <+: word ∧ [] ∈ M := by
  rcases Language.mem_mul.mp hw with ⟨a, ha, b, hb, rfl⟩
  rcases hlong.longest a ha ((List.prefix_append a b).trans hfront) with ⟨c, hc⟩
  cases b with
  | nil =>
      refine Or.inr ⟨?_, hb⟩
      rw [List.append_nil]
      exact ⟨c, hc⟩
  | cons k b =>
      cases c with
      | nil =>
          rw [List.append_nil] at hc
          subst hc
          rw [hks] at hfront
          exact Or.inl ⟨k :: b, hb, rfl, (List.prefix_append_right_inj a).mp hfront⟩
      | cons first c =>
          exfalso
          rw [hks, ← hc, List.append_assoc] at hfront
          rcases (List.prefix_append_right_inj a).mp hfront with ⟨rest, hrest⟩
          rw [List.cons_append, List.cons_append, List.cons.injEq] at hrest
          rcases hrest with ⟨rfl, _⟩
          exact hsep k (extends_of_mem ha (hc ▸ viable_of_mem hlong.mem))
            (viable_of_mem hb).starts

theorem mul_matched {c d : Cursor} {ts : List Tree} {s : Stall} {r : Reading}
    (hsep : Separated L M) (hM : ∃ v, v ∈ M) (h : Exact L c (.matched ts d s))
    (h' : Exact M d r) : Exact (L * M) c ((r.prepend ts).after s) := by
  cases h with
  | matched xs hrest hplace hlong hs =>
      have hkinds : kinds c.rest = kinds xs ++ kinds d.rest := by
        rw [hrest, kinds_append]
      cases h' with
      | refused hnone ht =>
          refine .refused ?_ (hs.join_mul hsep hM hrest hplace hlong ht)
          intro w hw hfront
          rcases prefix_of_mem_mul hsep hkinds hlong hw hfront with
            ⟨v, hv, _, hlater⟩ | ⟨_, hnil⟩
          · exact hnone v hv hlater
          · exact hnone [] hnil List.nil_prefix
      | matched ys hrest' hplace' hlong' ht =>
          refine .matched (xs ++ ys) ?_ ?_ ⟨?_, ?_, ?_⟩
            (hs.join_mul hsep hM hrest hplace hlong ht)
          · rw [hrest, hrest', List.append_assoc]
          · rw [hplace', hplace, List.length_append, Nat.add_assoc]
          · rw [hkinds, kinds_append]
            exact (List.prefix_append_right_inj _).mpr hlong'.isPrefix
          · rw [kinds_append]
            exact Language.append_mem_mul hlong.mem hlong'.mem
          · intro w hw hfront
            rw [kinds_append]
            rcases prefix_of_mem_mul hsep hkinds hlong hw hfront with
              ⟨v, hv, rfl, hlater⟩ | ⟨hword, _⟩
            · exact (List.prefix_append_right_inj _).mpr (hlong'.longest v hv hlater)
            · exact hword.trans (List.prefix_append _ _)

/-!
An alternative is read only after the ones before it have been refused.
-/

theorem add_refused {c : Cursor} {s : Stall} {r : Reading} (h : Exact L c (.refused s))
    (h' : Exact M c r) : Exact (L + M) c (r.after s) := by
  cases h with
  | refused hnone hs =>
      cases h' with
      | refused hnone' ht =>
          refine .refused ?_ (hs.join_add ht)
          intro w hw
          rcases (Language.mem_add L M w).mp hw with hL | hM
          · exact hnone w hL
          · exact hnone' w hM
      | matched ys hrest hplace hlong ht =>
          refine .matched ys hrest hplace ⟨hlong.isPrefix, ?_, ?_⟩ (hs.join_add ht)
          · exact (Language.mem_add L M _).mpr (Or.inr hlong.mem)
          · intro w hw hfront
            rcases (Language.mem_add L M w).mp hw with hL | hM
            · exact absurd hfront (hnone w hL)
            · exact hlong.longest w hM hfront

theorem add_matched {c d : Cursor} {ts : List Tree} {s : Stall} (hsup : Supersedes L M)
    (h : Exact L c (.matched ts d s)) : Exact (L + M) c (.matched ts d s) := by
  cases h with
  | matched xs hrest hplace hlong hs =>
      rcases hs with ⟨seen, hsplace, hseen⟩
      have hxs := hseen.prefix_seen hlong.isPrefix (viable_of_mem hlong.mem)
      refine .matched xs hrest hplace ⟨hlong.isPrefix, ?_, ?_⟩
        ⟨seen, hsplace, hseen.isPrefix, ?_, ?_, hseen.refused⟩
      · exact (Language.mem_add L M _).mpr (Or.inl hlong.mem)
      · intro w hw hfront
        rcases (Language.mem_add L M w).mp hw with hL | hM
        · exact hlong.longest w hL hfront
        · rcases List.prefix_or_prefix_of_prefix hfront hlong.isPrefix with hle | hge
          · exact hle
          · exact hlong.longest w ((hsup _ hlong.mem w hge).1 hM) hfront
      · exact viable_add.mpr (Or.inl hseen.viable)
      · intro k
        rw [hseen.mem_wanted, viable_add]
        constructor
        · exact Or.inl
        · intro h
          rcases h with hL | hM
          · exact hL
          · exact (hsup _ hlong.mem _ (hxs.trans (List.prefix_append _ _))).2 hM

end Exact
end Reading

/-!
## Repetitions

A repetition reads as the choice between one more round and the end.
-/

theorem starts_kstar {k : Token} (hnil : [] ∉ L) (h : Starts (L∗) k) : Starts L k := by
  rcases h with ⟨v, hv⟩
  rw [kstar_eq] at hv
  rcases (Language.mem_add _ _ _).mp hv with hmul | hone
  · rcases Language.mem_mul.mp hmul with ⟨a, ha, b, _, hab⟩
    cases a with
    | nil => exact absurd ha hnil
    | cons first a =>
        rw [List.cons_append, List.cons_append, List.cons.injEq] at hab
        rcases hab with ⟨rfl, _⟩
        exact (viable_of_mem ha).starts
  · exact absurd ((Language.mem_one _).mp hone) (by simp)

theorem Continuation.Separated.kstar (hnil : [] ∉ L) (hsep : Separated L L) :
    Separated L (L∗) := by
  intro k hk hstarts
  exact hsep k hk (starts_kstar hnil hstarts)

theorem supersedes_one (hnil : [] ∉ L) : Supersedes (L * M) 1 := by
  intro u hu v huv
  rcases Language.mem_mul.mp hu with ⟨a, ha, b, _, rfl⟩
  have hne : v ≠ [] := by
    intro heq
    subst heq
    rcases List.append_eq_nil_iff.mp (List.prefix_nil.mp huv) with ⟨rfl, _⟩
    exact hnil ha
  constructor
  · intro hv
    exact absurd ((Language.mem_one v).mp hv) hne
  · intro h
    rcases h with ⟨r, hr⟩
    exact absurd (List.append_eq_nil_iff.mp ((Language.mem_one _).mp hr)).1 hne

theorem Reading.Exact.repeatedly {body : Cursor → Reading} (hnil : [] ∉ L)
    (hsep : Separated L L) (hbody : ∀ c, (body c).Exact L c) (c : Cursor) :
    (Piece.repeatedly body c).Exact (L∗) c := by
  have hstar : ∃ w, w ∈ L∗ := ⟨[], Language.nil_mem_kstar L⟩
  fun_induction Piece.repeatedly body c with
  | case1 c s hread =>
      have hexact := hbody c
      rw [hread] at hexact
      have hstop := (hexact.mul_refused hstar).add_refused (.nothing c)
      rw [← kstar_eq] at hstop
      cases hexact with
      | refused _ hs =>
          rwa [Reading.after, Stall.join_reached hs.place_le] at hstop
  | case2 c ts d s hread _ ih =>
      have hexact := hbody c
      rw [hread] at hexact
      have hmore := hexact.mul_matched (hsep.kstar hnil) hstar ih
      cases hrest : Piece.repeatedly body d with
      | refused t =>
          rw [hrest] at ih
          cases ih with
          | refused hnone _ => exact absurd List.nil_prefix (hnone [] (Language.nil_mem_kstar L))
      | matched us e t =>
          rw [hrest] at hmore
          rw [kstar_eq]
          exact hmore.add_matched (supersedes_one hnil)
  | case3 c ts d s hread hstuck =>
      have hexact := hbody c
      rw [hread] at hexact
      cases hexact with
      | matched xs hrest _ hlong _ =>
          exfalso
          have hempty : xs = [] := by
            rw [hrest, List.length_append] at hstuck
            exact List.length_eq_zero_iff.mp (by omega)
          subst hempty
          exact hnil hlong.mem

/-!
## Orderly pieces
-/

namespace Piece

inductive Orderly : Piece → Prop where
  | nothing : Orderly nothing
  | token (t : Token) : Orderly (token t)
  | both {p q : Piece} :
      Orderly p → Orderly q → Separated p.language q.language → Orderly (both p q)
  | either {p q : Piece} :
      Orderly p → Orderly q → Supersedes p.language q.language → Orderly (either p q)
  | many {p : Piece} :
      Orderly p → [] ∉ p.language → Separated p.language p.language → Orderly (many p)
  | named {p : Piece} (r : Rule) : Orderly p → Orderly (named r p)

theorem Orderly.read_exact (leafText : PlacedToken → String) {p : Piece} (h : Orderly p)
    (c : Cursor) : (read leafText p c).Exact p.language c := by
  induction h generalizing c with
  | nothing => exact .nothing c
  | token t =>
      rcases c with ⟨place, rest⟩
      cases rest with
      | nil =>
          rw [read]
          exact .token_refused (by simp)
      | cons x rest =>
          simp only [read]
          by_cases htoken : x.token = t
          · subst htoken
            rw [if_pos rfl]
            exact .token_matched
          · rw [if_neg htoken]
            refine .token_refused ?_
            intro hfront
            rw [kinds_cons, List.cons_prefix_cons] at hfront
            exact htoken hfront.1.symm
  | @both p q hp hq hsep ihp ihq =>
      have hexact := ihp c
      rw [read]
      cases hread : read leafText p c with
      | refused s =>
          rw [hread] at hexact
          exact hexact.mul_refused (exists_mem_language q)
      | matched ts d s =>
          rw [hread] at hexact
          exact hexact.mul_matched hsep (exists_mem_language q) (ihq d)
  | @either p q hp hq hsup ihp ihq =>
      have hexact := ihp c
      rw [read]
      cases hread : read leafText p c with
      | refused s =>
          rw [hread] at hexact
          exact hexact.add_refused (ihq c)
      | matched ts d s =>
          rw [hread] at hexact
          exact hexact.add_matched hsup
  | @many p hp hnil hsep ih =>
      rw [read]
      exact Reading.Exact.repeatedly hnil hsep ih c
  | @named p r hp ih =>
      have hexact := ih c
      rw [read]
      cases hread : read leafText p c with
      | refused s =>
          rw [hread] at hexact
          exact hexact
      | matched ts d s =>
          rw [hread] at hexact
          cases hexact with
          | matched xs hrest hplace hlong hs => exact .matched xs hrest hplace hlong hs

end Piece
end PascalUnit
