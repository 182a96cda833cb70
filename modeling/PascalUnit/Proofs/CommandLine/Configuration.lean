import Mathlib.Algebra.Group.Int.Defs
import Mathlib.Algebra.Group.Nat.Defs
import PascalUnit.CommandLine
import PascalUnit.Proofs.Settings.Layering

/-!
# Settings of an invocation

The files of an invocation are laid over the defaults in order: one that may be
missing, and one that is asked for.  What the command line says about a setting is
not looked up in them, whatever they hold.
-/

namespace PascalUnit

namespace Invocation

variable {files : Files} {i : Invocation}

def fileLayers (i : Invocation) : List Settings.Layer :=
  .file Command.localSettings false :: i.config.toList.map fun name => .file name true

def effectiveFormat (i : Invocation) (root : Settings.Value) : Except Settings.Error String :=
  match i.format with
  | some text => .ok text
  | none =>
      (Settings.formatField.find root).bind fun found => Settings.readText found.1 found.2

/-- The label width, which as a setting is a signed number of 64 bits. -/
def effectiveWidth (i : Invocation) (root : Settings.Value) : Except Settings.Error Nat :=
  match i.labelWidth with
  | some w =>
      if w < 2 ^ 63 then .ok w
      else
        .error
          (.wrongType (.scalar (.integer (w - 2 ^ 64))) "an unsigned 64 bit or less integer"
            Settings.labelWidthField.path none)
  | none =>
      (Settings.labelWidthField.find root).bind fun found => Settings.readCount found.1 found.2

def settings (files : Files) (i : Invocation) : Except Settings.Error Settings :=
  (Settings.layFiles files i.fileLayers Settings.defaults).bind fun root =>
    (i.effectiveFormat root).bind fun format =>
      (i.effectiveWidth root).map fun labelWidth => ⟨format, labelWidth⟩

def overrides (i : Invocation) : List Settings.Layer :=
  (i.format.toList.map fun text => .override Settings.formatField.key (.text text)) ++
    i.labelWidth.toList.map fun w => .override Settings.labelWidthField.key (.integer (signed w))

theorem layers_eq_append (i : Invocation) : i.layers = i.fileLayers ++ i.overrides := by
  rw [overrides, ← List.append_assoc]
  rfl

theorem layFiles_layers (root : Settings.Value) :
    Settings.layFiles files i.layers root = Settings.layFiles files i.fileLayers root := by
  have hoverrides : ∀ root, Settings.layFiles files i.overrides root = .ok root := by
    intro root
    unfold overrides
    cases i.format <;> cases i.labelWidth <;> rfl
  rw [layers_eq_append, Settings.layFiles_append]
  cases Settings.layFiles files i.fileLayers root with
  | error e => rfl
  | ok root => exact hoverrides root

theorem layOverrides_layers (root : Settings.Value) :
    Settings.layOverrides i.layers root = Settings.layOverrides i.overrides root := by
  have hfiles : Settings.layOverrides i.fileLayers root = root := by
    unfold fileLayers
    cases i.config <;> rfl
  rw [layers_eq_append, Settings.layOverrides_append, hfiles]

theorem readCount_signed {w : Nat} (h : w < Text.countLimit) (key : String) :
    Settings.readCount key (.scalar none (.integer (signed w))) =
      if w < 2 ^ 63 then .ok w
      else
        .error
          (.wrongType (.scalar (.integer (w - 2 ^ 64))) "an unsigned 64 bit or less integer"
            key none) := by
  have hlimit : Text.countLimit = 2 ^ 64 := rfl
  split
  · rename_i hsmall
    have hsigned : signed w = (w : Int) := by
      rw [signed, hlimit, Int.bmod_def]
      omega
    rw [hsigned]
    rfl
  · rename_i hlarge
    have hsigned : signed w = (w : Int) - 2 ^ 64 := by
      rw [signed, hlimit, Int.bmod_def]
      omega
    -- `readCount` tells the signs apart by the constructor
    have hneg : ∃ n, (w : Int) - 2 ^ 64 = .negSucc n :=
      Int.eq_negSucc_of_lt_zero (by omega)
    rcases hneg with ⟨n, hn⟩
    rw [hsigned, hn]
    rfl

theorem effectiveFormat_eq (root : Settings.Value) :
    i.effectiveFormat root =
      (Settings.formatField.find (Settings.layOverrides i.overrides root)).bind fun found =>
        Settings.readText found.1 found.2 := by
  have hgroup : Settings.formatField.group ≠ Settings.labelWidthField.group := by decide
  unfold effectiveFormat overrides
  cases i.format <;> cases i.labelWidth <;>
    simp [Settings.layOverrides, Settings.Field.find_assign_of_ne hgroup,
      Settings.Field.find_assign_self, Settings.readText, Except.bind]

theorem effectiveWidth_eq (h : ∀ w, i.labelWidth = some w → w < Text.countLimit)
    (root : Settings.Value) :
    i.effectiveWidth root =
      (Settings.labelWidthField.find (Settings.layOverrides i.overrides root)).bind fun found =>
        Settings.readCount found.1 found.2 := by
  have hgroup : Settings.labelWidthField.group ≠ Settings.formatField.group := by decide
  unfold effectiveWidth overrides
  rw [Settings.layOverrides_append]
  cases hw : i.labelWidth with
  | none =>
      cases i.format with
      | none => rfl
      | some text =>
          -- only the format was assigned, and that is in another group
          have hfind := Settings.Field.find_assign_of_ne hgroup root (.scalar none (.text text))
          simp [Settings.layOverrides, hfind]
  | some w =>
      have hread := readCount_signed (h w hw) Settings.labelWidthField.path
      simp [Settings.layOverrides, Settings.Field.find_assign_self, hread, Except.bind]

/-- The layers of an invocation give its settings. -/
theorem build_layers (h : ∀ w, i.labelWidth = some w → w < Text.countLimit) :
    Settings.build files i.layers = i.settings files := by
  rw [Settings.build, settings, layFiles_layers]
  cases Settings.layFiles files i.fileLayers Settings.defaults with
  | error e => rfl
  | ok root =>
      simp only [Except.bind]
      rw [layOverrides_layers, Settings.ofValue_eq_bind, effectiveFormat_eq, effectiveWidth_eq h]
      rfl

theorem settings_eq_ok_iff {s : Settings} :
    i.settings files = .ok s ↔
      ∃ root, Settings.layFiles files i.fileLayers Settings.defaults = .ok root ∧
        i.effectiveFormat root = .ok s.format ∧ i.effectiveWidth root = .ok s.labelWidth := by
  rcases s with ⟨format, labelWidth⟩
  unfold settings
  cases Settings.layFiles files i.fileLayers Settings.defaults with
  | error e => simp [Except.bind]
  | ok root =>
      cases hformat : i.effectiveFormat root with
      | error e => simp [Except.bind, hformat]
      | ok text =>
          cases hwidth : i.effectiveWidth root with
          | error e => simp [Except.bind, Except.map, hformat, hwidth]
          | ok w => simp [Except.bind, Except.map, hformat, hwidth]

theorem format_of_settings {text : String} {s : Settings} (hformat : i.format = some text)
    (h : i.settings files = .ok s) : s.format = text := by
  rcases settings_eq_ok_iff.mp h with ⟨root, _, htext, _⟩
  rw [effectiveFormat, hformat] at htext
  cases htext
  rfl

theorem labelWidth_of_settings {w : Nat} {s : Settings} (hwidth : i.labelWidth = some w)
    (h : i.settings files = .ok s) : w < 2 ^ 63 ∧ s.labelWidth = w := by
  rcases settings_eq_ok_iff.mp h with ⟨root, _, _, hcount⟩
  rw [effectiveWidth, hwidth] at hcount
  simp only at hcount
  split at hcount
  · rename_i hsmall
    cases hcount
    exact ⟨hsmall, rfl⟩
  · cases hcount

theorem settings_of_explicit {text : String} {w : Nat} {root : Settings.Value}
    (hformat : i.format = some text) (hwidth : i.labelWidth = some w) (hsmall : w < 2 ^ 63)
    (hroot : Settings.layFiles files i.fileLayers Settings.defaults = .ok root) :
    i.settings files = .ok ⟨text, w⟩ := by
  apply settings_eq_ok_iff.mpr
  refine ⟨root, hroot, ?_, ?_⟩
  · rw [effectiveFormat, hformat]
  · rw [effectiveWidth, hwidth]
    exact if_pos hsmall

end Invocation
end PascalUnit
