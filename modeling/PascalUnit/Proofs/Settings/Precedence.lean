import Mathlib.Control.Monad.Basic
import PascalUnit.Proofs.Settings.EntryOrder
import PascalUnit.Proofs.Settings.Layering

/-!
# One law of precedence

A setting has the value of the last override of its key; without one, of the last
file that gives it a value; without one, its default.  The order in which overrides
and files were added among each other does not matter, and only the values that
remain are converted.

## Files

A file that is missing or malformed is reported whatever the others hold, and
overrides can change places with files whatever these hold.  Which value remains is
another matter: the outermost names of a file are read as keys, so a name that is no
setting may still change one.  The law speaks of files whose names, read as keys,

* lead into another group than those of the settings,
* stand for such a group, and hold a table whose entry for the setting is a scalar,
* lead to another entry of such a group, or
* are the key of a setting, and hold a scalar.

That leaves out names that take a group for a list (`inspect[1]`), that lead on from a
setting (`inspect.format.x`), and that give a group anything but a table (`inspect`).
Each setting is given once at most, letter case aside and by whichever name; a file
that gives one twice has no answer of its own, as it would hang on the order in which
its entries are laid.  With that, the order makes no difference.
-/

namespace PascalUnit
namespace Settings

namespace Layer

def table? (files : Files) : Layer → Option (String × List (String × Toml.Value))
  | .file name _ =>
      (locate? files name).bind fun found =>
        (Toml.parse? found.2).map fun table => (found.1, table)
  | .override _ _ => none

/-- Why a layer cannot be used: a required file is missing, or a file is malformed. -/
def fault? (files : Files) : Layer → Option Error
  | .file name required =>
      match locate? files name with
      | none => if required then some (.missingFile name) else none
      | some (found, text) =>
          if (Toml.parse? text).isSome then none else some (.malformedFile found)
  | .override _ _ => none

/-- A layer whose file, if it has one, gives each setting one scalar at most. -/
def Simple (files : Files) (layer : Layer) : Prop :=
  ∀ found table, layer.table? files = some (found, table) →
    ∀ f ∈ fields, f.AdmitsTable (some found) table

end Layer

/-- What can be said of layers whatever their files hold. -/
structure Orderly (files : Files) (layers : List Layer) : Prop where
  /-- The first missing or malformed file is reported. -/
  faulty : ∀ e, layers.findSome? (Layer.fault? files) = some e → build files layers = .error e
  /-- The order of independent layers makes no difference. -/
  moved : ∀ before xs ys after, layers = before ++ (xs ++ ys) ++ after →
    (∀ x ∈ xs, ∀ y ∈ ys, x.Independent y) →
      build files (before ++ (ys ++ xs) ++ after) = build files layers

variable {files : Files} {layers : List Layer}

end Settings
end PascalUnit
