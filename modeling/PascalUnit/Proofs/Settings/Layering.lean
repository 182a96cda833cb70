import PascalUnit.Proofs.Settings.Merging

/-!
# Files, then overrides

Overrides are laid over what all files give, wherever they were added.  An override
decides about its own setting whatever the files hold, and leaves the other setting
alone.  So layers can change places as long as at most one of them is a file and they
do not override one setting.
-/

namespace PascalUnit
namespace Settings

def fields : List Field :=
  [formatField, labelWidthField]

/-!
## Keys of fields
-/

namespace Field

theorem given?_key (f g : Field) (v : Value) :
    f.given? g.key v = if g.key = f.key then some v else none := by
  by_cases hgroup : g.group = f.group
  · by_cases hname : g.name = f.name <;> simp [given?, key, hgroup, hname]
  · simp [given?, key, hgroup]

theorem admits_key (f g : Field) {v : Value} (h : v.isScalar = true) : f.Admits g.key v := by
  by_cases hgroup : g.group = f.group
  · rw [key, hgroup]
    by_cases hname : g.name = f.name
    · rw [hname]
      exact .direct h
    · exact .beside hname
  · exact .elsewhere hgroup

theorem find_of_peek {f : Field} {root v : Value} (h : f.peek root = some v) :
    f.find root = .ok (f.path, v) := by
  rw [peek, Option.bind_eq_some_iff] at h
  rcases h with ⟨group, hgroup, hv⟩
  rw [Value.entryNamed?] at hgroup hv
  cases group with
  | group origin es =>
      rw [find, hgroup]
      rw [Value.entries] at hv
      simp only [hv]
  | unset | scalar | list => cases hv

theorem find_assign_of_ne {f g : Field} (h : f.group ≠ g.group) (root v : Value) :
    f.find (root.assign g.key v) = f.find root := by
  have hgroup : (root.assign g.key v).entries.lookup f.group = root.entries.lookup f.group :=
    (Value.entryNamed?_updateEntry _ _ _ root).trans (if_neg h)
  rw [find, find, hgroup]

theorem find_assign_self (f : Field) (root : Value) (s : Scalar) :
    f.find (root.assign f.key (.scalar none s)) = .ok (f.path, .scalar none s) := by
  apply find_of_peek
  rw [(f.admits_key f rfl).peek_assign, given?_key, if_pos rfl, Option.some_or]

end Field

theorem ofValue_eq_bind (root : Value) :
    ofValue root =
      ((formatField.find root).bind fun found => readText found.1 found.2).bind fun format =>
        ((labelWidthField.find root).bind fun found => readCount found.1 found.2).map
          fun labelWidth => ⟨format, labelWidth⟩ := by
  unfold ofValue
  cases formatField.find root with
  | error e => rfl
  | ok found =>
      simp only [Except.bind]
      cases readText found.1 found.2 with
      | error e => rfl
      | ok format =>
          cases labelWidthField.find root with
          | error e => rfl
          | ok found =>
              simp only
              cases readCount found.1 found.2 with
              | error e => rfl
              | ok labelWidth => rfl

namespace Layer

/-- Layers that can change places: an override and a file, or overrides of two keys. -/
def Independent : Layer → Layer → Prop
  | .override _ _, .file _ _ => True
  | .file _ _, .override _ _ => True
  | .override key _, .override key' _ => key ≠ key'
  | .file _ _, .file _ _ => False

end Layer

variable {files : Files}

theorem layFiles_append (xs ys : List Layer) (root : Value) :
    layFiles files (xs ++ ys) root = (layFiles files xs root).bind (layFiles files ys) := by
  induction xs generalizing root with
  | nil => rfl
  | cons layer xs ih =>
      cases layer with
      | override key s => exact ih root
      | file name required =>
          rw [List.cons_append, layFiles, layFiles]
          cases locate? files name with
          | none =>
              cases required with
              | true => rfl
              | false => exact ih root
          | some found =>
              cases htable : Toml.parse? found.2 with
              | none =>
                  simp only [htable]
                  rfl
              | some table =>
                  simp only [htable]
                  exact ih _

theorem layOverrides_append (xs ys : List Layer) (root : Value) :
    layOverrides (xs ++ ys) root = layOverrides ys (layOverrides xs root) := by
  induction xs generalizing root with
  | nil => rfl
  | cons layer xs ih =>
      cases layer with
      | override key s => exact ih _
      | file name required => exact ih root

end Settings
end PascalUnit
