import PascalUnit.CommandLine

/-!
# The program

Looks at the files that the arguments name, runs the command and prints what it
leaves behind.
-/

namespace PascalUnit

def inspectFile (name : String) : IO FileEntry := do
  try
    return .file (← IO.FS.readBinFile name)
  catch
    | .inappropriateType .. => return .directory
    | _ => return .absent

def Command.fileNames : Command → List String
  | execute invocation => invocation.fileNames
  | _ => []

end PascalUnit

open PascalUnit in
def main (arguments : List String) : IO UInt32 := do
  let names := (Command.ofArguments? arguments).elim [] Command.fileNames
  let entries ← names.mapM fun name => return (name, ← inspectFile name)
  let files : Files := fun name => (entries.lookup name).getD .absent
  let outcome := runArguments files arguments
  IO.print outcome.output
  IO.eprint outcome.diagnostics
  return outcome.code.toUInt32
