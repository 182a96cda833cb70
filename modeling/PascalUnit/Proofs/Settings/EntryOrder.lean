import PascalUnit.Proofs.Settings.Merging

/-!
# The order of the entries of a file

The entries of a file are laid over settings one after the other.  A field to which
the file gives one scalar at most does not tell in which order: neither the order of
the outermost entries nor that inside a table makes a difference.
-/

namespace PascalUnit
namespace Settings

/-- Tables with the same entries, in any order, at every depth of tables in tables. -/
inductive SameEntries : List (String × Toml.Value) → List (String × Toml.Value) → Prop where
  | perm {table table' : List (String × Toml.Value)} :
      table.Perm table' → SameEntries table table'
  | within {name : String} {es es' more : List (String × Toml.Value)} :
      SameEntries es es' → SameEntries ((name, .table es) :: more) ((name, .table es') :: more)
  | trans {table table' table'' : List (String × Toml.Value)} :
      SameEntries table table' → SameEntries table' table'' → SameEntries table table''

/--
Where entries give at most once, and give the same when a table inside them is
rearranged, the order of the whole table makes no difference.
-/
theorem SameEntries.lastGiven {β : Type} {give : String × Toml.Value → Option β}
    {Fit : String × Toml.Value → Prop}
    (hwithin : ∀ {name es es'}, SameEntries es es' → Fit (name, .table es) →
      Fit (name, .table es') ∧ give (name, .table es') = give (name, .table es))
    {table table' : List (String × Toml.Value)} (h : SameEntries table table')
    (hfit : ∀ e ∈ table, Fit e) (honce : GivesOnce give table) :
    (∀ e ∈ table', Fit e) ∧ GivesOnce give table' ∧
      Settings.lastGiven give table' = Settings.lastGiven give table := by
  induction h with
  | perm hperm =>
      exact ⟨fun e he => hfit e (hperm.mem_iff.mpr he), honce.perm hperm,
        honce.lastGiven_perm hperm⟩
  | within hes _ =>
      rw [List.forall_mem_cons] at hfit
      rw [GivesOnce, List.pairwise_cons] at honce
      rcases hwithin hes hfit.1 with ⟨hfit', hgive⟩
      refine ⟨List.forall_mem_cons.mpr ⟨hfit', hfit.2⟩, ?_, ?_⟩
      · rw [GivesOnce, List.pairwise_cons, hgive]
        exact honce
      · rw [lastGiven_cons, lastGiven_cons, hgive]
  | trans _ _ ih ih' =>
      rcases ih hfit honce with ⟨hfit', honce', hgiven⟩
      rcases ih' hfit' honce' with ⟨hfit'', honce'', hgiven'⟩
      exact ⟨hfit'', honce'', hgiven'.trans hgiven⟩

namespace Value

variable {origin : Option String}

end Value

namespace Field

variable {f : Field} {origin : Option String}

end Field
end Settings
end PascalUnit
