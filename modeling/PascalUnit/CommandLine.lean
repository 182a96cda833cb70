import PascalUnit.Report
import PascalUnit.Settings

/-!
# Command line

The program reports on the unit in a file (`execute`) or lists the views it
knows (`list-formats`).

## Arguments

Options and the path may stand in any order.  A short option takes the rest of
its argument as its value, a long option what follows an equals sign, and both
may take the next argument instead, which then must not look like an option.
Two hyphens end the options.
-/

namespace PascalUnit

structure Invocation where
  path : String
  format : Option String
  query : Option String
  config : Option String
  labelWidth : Option Nat
  deriving DecidableEq, Repr

inductive Command where
  | version
  | help
  | listFormats
  | execute (invocation : Invocation)
  deriving DecidableEq, Repr

/-!
## Options of `execute`
-/

inductive Flag where
  | format
  | query
  | config
  | labelWidth
  deriving DecidableEq, Repr

namespace Flag

def all : List Flag :=
  [format, query, config, labelWidth]

def long : Flag → String
  | format => "format"
  | query => "query"
  | config => "config"
  | labelWidth => "max-label-chars"

def short? : Flag → Option Char
  | format => some 'f'
  | query => some 'q'
  | config => some 'c'
  | labelWidth => none

def ofLong? (name : List Char) : Option Flag :=
  all.find? fun flag => decide (flag.long.toList = name)

def ofShort? (c : Char) : Option Flag :=
  all.find? fun flag => decide (flag.short? = some c)

end Flag

namespace CommandLine

structure Draft where
  path : Option String
  values : List (Flag × String)
  deriving DecidableEq, Repr

inductive Argument where
  | endOfOptions
  | help
  | unknown
  | positional (text : String)
  /-- An option, with its value when both are one argument. -/
  | option (flag : Flag) (attached : Option String)
  deriving DecidableEq, Repr

/-- The value after the equals sign of a long option, and the name before it. -/
def splitEquals (cs : List Char) : List Char × Option String :=
  match cs.dropWhile fun c => decide (c ≠ '=') with
  | [] => (cs, none)
  | _ :: rest => (cs.takeWhile fun c => decide (c ≠ '='), some (String.ofList rest))

/-- The rest of a short option as its value; an equals sign may stand before it. -/
def shortValue : List Char → Option String
  | [] => none
  | '=' :: cs => some (String.ofList cs)
  | cs => some (String.ofList cs)

def classify (argument : String) : Argument :=
  match argument.toList with
  | ['-', '-'] => .endOfOptions
  | '-' :: '-' :: cs =>
      let (name, attached) := splitEquals cs
      if name = "help".toList ∧ attached.isNone then .help
      else
        match Flag.ofLong? name with
        | some flag => .option flag attached
        | none => .unknown
  | '-' :: c :: cs =>
      if c = 'h' then .help
      else
        match Flag.ofShort? c with
        | some flag => .option flag (shortValue cs)
        | none => .unknown
  | _ => .positional argument

/-- Whether an argument can be the value of the option before it. -/
def isValue (argument : String) : Bool :=
  match classify argument with
  | .positional _ => true
  | _ => false

namespace Draft

def start : Draft :=
  ⟨none, []⟩

/-- There is only one path. -/
def addPath? (path : String) (d : Draft) : Option Draft :=
  if d.path.isSome then none else some ⟨some path, d.values⟩

/-- An option is given at most once. -/
def addValue? (flag : Flag) (value : String) (d : Draft) : Option Draft :=
  if (d.values.lookup flag).isSome then none
  else some ⟨d.path, d.values ++ [(flag, value)]⟩

def addPaths? : List String → Draft → Option Draft
  | [], d => some d
  | path :: paths, d => (d.addPath? path).bind (addPaths? paths)

def finish? (d : Draft) : Option Command :=
  match d.path with
  | none => none
  | some path =>
      let invocation (labelWidth : Option Nat) : Command :=
        .execute
          { path
            format := d.values.lookup .format
            query := d.values.lookup .query
            config := d.values.lookup .config
            labelWidth }
      match d.values.lookup .labelWidth with
      | none => some (invocation none)
      | some text => (Text.readCount? text.toList).map fun n => invocation (some n)

end Draft

def execute? (d : Draft) : List String → Option Command
  | [] => d.finish?
  | argument :: rest =>
      match classify argument with
      | .endOfOptions => (d.addPaths? rest).bind Draft.finish?
      | .help => some .help
      | .unknown => none
      | .positional path => (d.addPath? path).bind fun d => execute? d rest
      | .option flag (some value) => (d.addValue? flag value).bind fun d => execute? d rest
      | .option flag none =>
          match rest with
          | [] => none
          | value :: rest =>
              if isValue value then
                (d.addValue? flag value).bind fun d => execute? d rest
              else none

def listFormats? : List String → Option Command
  | [] => some .listFormats
  | ["--"] => some .listFormats
  | argument :: _ =>
      match classify argument with
      | .help => some .help
      | _ => none

/-- Reads the arguments of `help`, which may name a command. -/
def help? : List String → Option Command
  | [] | ["execute"] | ["list-formats"] | ["help"] => some .help
  | _ => none

def isShort (c : Char) (argument : String) : Bool :=
  ['-', c].isPrefixOf argument.toList

end CommandLine

def Command.ofArguments? : List String → Option Command
  | [] => none
  | argument :: rest =>
      if argument = "execute" then CommandLine.execute? .start rest
      else if argument = "list-formats" then CommandLine.listFormats? rest
      else if argument = "help" then CommandLine.help? rest
      else if argument = "--version" ∨ CommandLine.isShort 'V' argument then some .version
      else if argument = "--help" ∨ CommandLine.isShort 'h' argument then some .help
      else none

/-!
## Running a command
-/

structure Outcome where
  code : Nat
  output : String
  diagnostics : String
  deriving DecidableEq, Repr

namespace Outcome

def success (output : String) : Outcome :=
  ⟨0, output, ""⟩

def failure (diagnostics : String) : Outcome :=
  ⟨1, "", diagnostics⟩

end Outcome

namespace Command

def versionText : String :=
  "pitonisa 0.1.0\n"

def usageText : String :=
  "Usage: pitonisa execute [OPTIONS] <path>\n       pitonisa list-formats\n"

def misuse : Outcome :=
  ⟨2, "", usageText⟩

def formatList : String :=
  "Available formats:\n\n" ++ String.join (View.all.map fun v => "  " ++ v.name ++ "\n")

def localSettings : String := "pitonisa.toml"

end Command

def endLine (text : String) : String :=
  if text.toList.getLast? = some '\n' then text else text ++ "\n"

namespace Invocation

/-- The signed 64-bit integer with the same bits as a count. -/
def signed (n : Nat) : Int :=
  Int.bmod n Text.countLimit

def layers (i : Invocation) : List Settings.Layer :=
  .file Command.localSettings false ::
    (i.config.toList.map fun name => .file name true) ++
    (i.format.toList.map fun text => .override Settings.formatField.key (.text text)) ++
    (i.labelWidth.toList.map fun n =>
      .override Settings.labelWidthField.key (.integer (signed n)))

def fileNames (i : Invocation) : List String :=
  i.path ::
    (Command.localSettings :: i.config.toList).flatMap fun name =>
      [name, name ++ Settings.extension]

def run (files : Files) (i : Invocation) : Outcome :=
  match Settings.build files i.layers with
  | .error e => .failure ("Configuration error: " ++ e.message ++ "\n")
  | .ok settings =>
      match View.parse settings.format with
      | .error e =>
          .failure
            ("Error: " ++ e.message ++
              "\nRun 'pitonisa list-formats' to see the supported formats\n")
      | .ok view =>
          match Report.ofFile files view ⟨i.query, settings.labelWidth⟩ i.path with
          | .error e => .failure (i.path ++ ": " ++ e.message ++ "\n")
          | .ok output => .success (endLine output)

end Invocation

def Command.run (files : Files) : Command → Outcome
  | version => .success versionText
  | help => .success usageText
  | listFormats => .success formatList
  | execute invocation => invocation.run files

def runArguments (files : Files) (arguments : List String) : Outcome :=
  match Command.ofArguments? arguments with
  | none => Command.misuse
  | some command => command.run files

end PascalUnit
