import PascalUnit.Text.Utf8

/-!
# Files

What the program can see of its surroundings: for each name, whether a file or
a directory has it, and the bytes of the file.
-/

namespace PascalUnit

inductive FileEntry where
  | absent
  | directory
  | file (bytes : ByteArray)

abbrev Files := String → FileEntry

inductive ReadFault where
  | notFound
  | isDirectory
  | notText
  deriving DecidableEq, Repr

namespace ReadFault

def message : ReadFault → String
  | notFound => "No such file or directory (os error 2)"
  | isDirectory => "Is a directory (os error 21)"
  | notText => "stream did not contain valid UTF-8"

end ReadFault

namespace Files

/-- The text of a file, whose bytes must be UTF-8. -/
def read (files : Files) (name : String) : Except ReadFault String :=
  match files name with
  | .absent => .error .notFound
  | .directory => .error .isDirectory
  | .file bytes =>
      match String.fromUTF8? bytes with
      | some text => .ok text
      | none => .error .notText

def skipMark : List UInt8 → List UInt8
  | 0xEF :: 0xBB :: 0xBF :: bytes => bytes
  | bytes => bytes

/-- The text of a file whatever its bytes, without a byte order mark. -/
def readLeniently? (files : Files) (name : String) : Option String :=
  match files name with
  | .file bytes => some (String.ofList (Text.decodeBytes (skipMark bytes.toList)))
  | _ => none

end Files
end PascalUnit
