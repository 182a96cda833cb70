import PascalUnit.Files
import PascalUnit.Settings.Value
import PascalUnit.Text.Quoted
import PascalUnit.Toml.Parse

/-!
# Settings

What a report looks like when the command line does not say: the view, as it is
written, and the label width of drawings.

## Layers

Settings are built from the defaults, then files in the order given, then
overrides, which win over every file.  Only the values that remain are
converted, so a later layer repairs what an earlier one spoiled.
-/

namespace PascalUnit

structure Settings where
  format : String
  labelWidth : Nat
  deriving DecidableEq, Repr

namespace Settings

inductive Layer where
  /-- A file; when it is not required it may be missing. -/
  | file (name : String) (required : Bool)
  /-- A value that wins over every file. -/
  | override (key : Key) (value : Scalar)
  deriving DecidableEq, Repr

/-!
## Errors
-/

inductive Kind where
  | unset
  | scalar (s : Scalar)
  | list
  | group
  deriving DecidableEq, Repr

def Value.kind : Value → Kind
  | .unset => .unset
  | .scalar _ s => .scalar s
  | .list _ _ => .list
  | .group _ _ => .group

inductive Error where
  | missingFile (name : String)
  | malformedFile (name : String)
  | malformedKey (text : String)
  /-- A value that cannot be converted to what is wanted at a key. -/
  | wrongType (found : Kind) (wanted key : String) (origin : Option String)
  /-- A value where a group of settings is wanted. -/
  | notAGroup (found : Kind) (group : String)
  | missingField (name : String)
  | shortList (group : String)
  deriving DecidableEq, Repr

def booleanText (b : Bool) : String :=
  if b then "true" else "false"

def integerText : Int → String
  | .ofNat n => toString n
  | .negSucc n => "-" ++ toString (n + 1)

/-- A real number with a point even when it is whole. -/
def pointedText (r : Toml.Real) : String :=
  let text := r.render
  if text.toList.all fun c => c.isDigit || c = '-' then text ++ ".0" else text

namespace Kind

def describe : Kind → String
  | unset => "unit value"
  | scalar (.text s) => "string " ++ Text.quoteText s
  | scalar (.integer n) => "64-bit integer `" ++ integerText n ++ "`"
  | scalar (.real r) => "floating point `" ++ r.render ++ "`"
  | scalar (.boolean b) => "boolean `" ++ booleanText b ++ "`"
  | list => "sequence"
  | group => "map"

def describeMisplaced : Kind → String
  | scalar (.integer n) => "integer `" ++ integerText n ++ "`"
  | scalar (.real r) => "floating point `" ++ pointedText r ++ "`"
  | k => k.describe

end Kind

namespace Error

def message : Error → String
  | missingFile name => "configuration file \"" ++ name ++ "\" not found"
  | malformedFile name => "malformed TOML in " ++ name
  | malformedKey text => "malformed key " ++ Text.quoteText text
  | wrongType found wanted key origin =>
      "invalid type: " ++ found.describe ++ ", expected " ++ wanted ++ " for key `" ++
        key ++ "`" ++ origin.elim "" fun name => " in " ++ name
  | notAGroup found group =>
      "invalid type: " ++ found.describeMisplaced ++ ", expected struct " ++ group
  | missingField name => "missing field `" ++ name ++ "`"
  | shortList group =>
      "invalid length 0, expected struct " ++ group ++ " with 1 element"

end Error

/-!
## Conversions
-/

/-- A text; numbers and truth values are taken as they are written. -/
def readText (key : String) (v : Value) : Except Error String :=
  match v with
  | .scalar _ (.text s) => .ok s
  | .scalar _ (.integer n) => .ok (integerText n)
  | .scalar _ (.real r) => .ok r.render
  | .scalar _ (.boolean b) => .ok (booleanText b)
  | _ => .error (.wrongType v.kind "a string" key v.origin)

/-- The truth value that a word stands for, letter case aside. -/
def truthWord? (s : String) : Option Bool :=
  let word := s.map Char.toLower
  if word ∈ ["true", "on", "yes"] then some true
  else if word ∈ ["false", "off", "no"] then some false
  else none

/-- A count; a truth value counts one or zero, and a text must spell a count. -/
def readCount (key : String) (v : Value) : Except Error Nat :=
  match v with
  | .scalar _ (.integer (.ofNat n)) => .ok n
  | .scalar origin (.integer n) =>
      .error (.wrongType (.scalar (.integer n)) "an unsigned 64 bit or less integer" key origin)
  | .scalar origin (.text s) =>
      match truthWord? s with
      | some b => .ok b.toNat
      | none =>
          match Text.readCount? s.toList with
          | some n => .ok n
          | none => .error (.wrongType (.scalar (.text s)) "an integer" key origin)
  | .scalar _ (.real r) => .ok (r.toCount Text.countLimit)
  | .scalar _ (.boolean b) => .ok b.toNat
  | _ => .error (.wrongType v.kind "an integer" key v.origin)

/-!
## Reading the two settings
-/

/-- Where a setting is found: its group, the title of that group in messages, and its name. -/
structure Field where
  group : String
  title : String
  name : String
  deriving DecidableEq, Repr

def formatField : Field :=
  ⟨"inspect", "InspectConfig", "format"⟩

def labelWidthField : Field :=
  ⟨"treeviz", "TreevizConfig", "max_label_chars"⟩

namespace Field

def path (f : Field) : String :=
  f.group ++ "." ++ f.name

def key (f : Field) : Key :=
  ⟨f.group, [.entry f.name]⟩

/--
The value of a field and the key under which it was found.  A list stands for
its items in field order.
-/
def find (f : Field) (root : Value) : Except Error (String × Value) :=
  match root.entries.lookup f.group with
  | none => .error (.missingField f.group)
  | some (.group _ entries) =>
      match entries.lookup f.name with
      | none => .error (.missingField f.name)
      | some v => .ok (f.path, v)
  | some (.list _ (v :: _)) => .ok (f.group ++ "[0]", v)
  | some (.list _ []) => .error (.shortList f.title)
  | some v => .error (.notAGroup v.kind f.title)

end Field

def ofValue (root : Value) : Except Error Settings :=
  match formatField.find root with
  | .error e => .error e
  | .ok (formatKey, formatValue) =>
      match readText formatKey formatValue with
      | .error e => .error e
      | .ok format =>
          match labelWidthField.find root with
          | .error e => .error e
          | .ok (widthKey, widthValue) =>
              match readCount widthKey widthValue with
              | .error e => .error e
              | .ok labelWidth => .ok ⟨format, labelWidth⟩

/-!
## Building
-/

def defaults : Value :=
  .group none
    [("inspect", .group none [("format", .scalar none (.text "ast-tag"))]),
      ("treeviz", .group none [("max_label_chars", .scalar none (.integer 30))])]

/-- The extension that may be left out of the name of a file. -/
def extension : String := ".toml"

def locate? (files : Files) (name : String) : Option (String × String) :=
  match files.readLeniently? name with
  | some text => some (name, text)
  | none =>
      if name.isEmpty then none
      else
        (files.readLeniently? (name ++ extension)).map fun text => (name ++ extension, text)

def layFiles (files : Files) : List Layer → Value → Except Error Value
  | [], root => .ok root
  | .override _ _ :: layers, root => layFiles files layers root
  | .file name required :: layers, root =>
      match locate? files name with
      | none =>
          if required then .error (.missingFile name) else layFiles files layers root
      | some (found, text) =>
          match Toml.parse? text with
          | none => .error (.malformedFile found)
          | some table => layFiles files layers (root.overlay (some found) table)

def layOverrides : List Layer → Value → Value
  | [], root => root
  | .override key s :: layers, root => layOverrides layers (root.assign key (.scalar none s))
  | .file _ _ :: layers, root => layOverrides layers root

def build (files : Files) (layers : List Layer) : Except Error Settings :=
  match layFiles files layers defaults with
  | .error e => .error e
  | .ok root => ofValue (layOverrides layers root)

end Settings
end PascalUnit
