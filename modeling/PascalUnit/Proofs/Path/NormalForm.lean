import PascalUnit.Path.Query
import PascalUnit.Proofs.Path.Reading

/-!
# Normal forms of written paths

A path can be written in many ways, since an index may carry a plus sign and zeros in
front.  Reading a path and writing it again picks one of them: its normal form, which
is read as the same path and therefore is its own normal form.
-/

namespace PascalUnit

/-!
## Indices of a path that is read
-/

namespace Segment

theorem position_lt_of_written {cs : List Char} {s : Segment} (h : Written cs s) :
    s.position < Text.countLimit := by
  cases h with
  | bare =>
      show 0 < Text.countLimit
      decide
  | indexed _ hn =>
      rcases hn with ⟨_, _, _, _, _, hle⟩
      exact Nat.lt_of_le_of_lt hle (by decide)

theorem position_lt_of_all_written {texts : List (List Char)} {ss : List Segment}
    (h : List.Forall₂ Written texts ss) : ∀ s ∈ ss, s.position < Text.countLimit := by
  induction h with
  | nil => simp
  | cons hs _ ih => exact List.forall_mem_cons.mpr ⟨position_lt_of_written hs, ih⟩

end Segment

namespace Path

theorem position_lt_of_parse {text : String} {p : Path} (h : parse text = .ok p) :
    ∀ s ∈ p.segments, s.position < Text.countLimit := by
  by_cases hslash : text.toList.head? = some '/'
  · rcases List.head?_eq_some_iff.mp hslash with ⟨rest, hrest⟩
    exact Segment.position_lt_of_all_written ((parse_eq_ok_iff hrest).mp h)
  · rw [parse_of_unslashed hslash] at h
    cases h

theorem parse_render_of_parse {text : String} {p : Path} (h : parse text = .ok p) :
    parse p.render = .ok p :=
  parse_render (segments_ne_nil_of_parse h) (position_lt_of_parse h)

/-!
## Normal forms
-/

def normalize (text : String) : Except PathError String :=
  (parse text).map render

theorem normalize_of_parse {text : String} {p : Path} (h : parse text = .ok p) :
    normalize text = .ok p.render := by
  rw [normalize, h]
  rfl

theorem eq_of_render_eq_of_parse {text text' : String} {p p' : Path} (h : parse text = .ok p)
    (h' : parse text' = .ok p') (hrender : p.render = p'.render) : p = p' := by
  have hback := parse_render_of_parse h
  rw [hrender, parse_render_of_parse h'] at hback
  cases hback
  rfl

/-- What is written for a path stands for that path, whichever way it was written before. -/
structure Normalizes (text : String) (p : Path) : Prop where
  fixed : normalize text = .ok p.render ∧ normalize p.render = .ok p.render
  readBack : parse p.render = .ok p
  lookup : ∀ root : Tree, root.lookup p.render = root.lookup text
  determined : ∀ text' p', parse text' = .ok p' →
    (normalize text' = normalize text ↔ p' = p)

/-- Writing a path loses nothing, and gives the normal form of every way to write it. -/
theorem render_lossless :
    (∀ segments : List Segment, segments ≠ [] →
      (∀ s ∈ segments, ∀ i, s.index = some i → i < 2 ^ 64) →
        parse (render ⟨segments⟩) = .ok ⟨segments⟩) ∧
    ∀ text p, parse text = .ok p → Normalizes text p := by
  constructor
  · intro segments hne hindex
    apply parse_render hne
    intro s hs
    rw [Segment.position]
    cases hi : s.index with
    | none => decide
    | some i => exact hindex s hs i hi
  · intro text p h
    have hback := parse_render_of_parse h
    constructor
    case fixed => exact ⟨normalize_of_parse h, normalize_of_parse hback⟩
    case readBack => exact hback
    case lookup =>
      intro root
      rw [Tree.lookup, Tree.lookup, hback, h]
    case determined =>
      intro text' p' h'
      rw [normalize_of_parse h, normalize_of_parse h', Except.ok.injEq]
      constructor
      · exact eq_of_render_eq_of_parse h' h
      · intro heq
        rw [heq]

theorem render_lossless_padded :
    parse "/unit[18446744073709551615]" = .ok ⟨[⟨.unit, some 18446744073709551615⟩]⟩ ∧
      parse "/goal/unit[+007]" = .ok ⟨[⟨.goal, none⟩, ⟨.unit, some 7⟩]⟩ ∧
      normalize "/goal/unit[+007]" = .ok "/goal/unit[7]" ∧
      normalize "/goal/unit[7]" = .ok "/goal/unit[7]" ∧
      ∀ root : Tree, root.lookup "/goal/unit[7]" = root.lookup "/goal/unit[+007]" := by
  have hlargest : render ⟨[⟨.unit, some 18446744073709551615⟩]⟩ =
      "/unit[18446744073709551615]" := by decide +kernel
  have hback := render_lossless.1 [⟨.unit, some 18446744073709551615⟩] (by decide) (by decide)
  have hparse : parse "/goal/unit[+007]" = .ok ⟨[⟨.goal, none⟩, ⟨.unit, some 7⟩]⟩ := rfl
  have hrender : render ⟨[⟨.goal, none⟩, ⟨.unit, some 7⟩]⟩ = "/goal/unit[7]" := by decide +kernel
  have hnormal := render_lossless.2 _ _ hparse
  have hfixed := hnormal.fixed
  have hlookup := hnormal.lookup
  rw [hrender] at hfixed hlookup
  rw [hlargest] at hback
  exact ⟨hback, hparse, hfixed.1, hfixed.2, hlookup⟩

end Path
end PascalUnit
