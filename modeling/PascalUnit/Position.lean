import PascalUnit.Text.Slice

/-!
# Lines and columns

A position names a place in a source the way an editor does: lines and columns
count from one, columns count characters, and only a line feed ends a line.

## Line tables

A table lists the lines of a source once, each with the offset at which it
starts and the text from there on.  The line of an offset is the last one that
starts at or before it.
-/

namespace PascalUnit

structure Position where
  line : Nat
  column : Nat
  deriving DecidableEq, Repr

namespace Position

def render (p : Position) : String :=
  toString p.line ++ ":" ++ toString p.column

/-- Source order of positions: by line, then by column. -/
def Before (p q : Position) : Prop :=
  p.line < q.line ∨ p.line = q.line ∧ p.column < q.column

end Position

/-- A line: the offset at which it starts, and the text from there to the end of the source. -/
structure Line where
  start : Nat
  text : List Char
  deriving DecidableEq, Repr

structure LineTable where
  size : Nat
  lines : List Line
  deriving DecidableEq, Repr

namespace LineTable

/-- The lines that begin after each line feed of a text that begins at `offset`. -/
def breaks (offset : Nat) : List Char → List Line
  | [] => []
  | c :: cs =>
      let next := offset + c.utf8Size
      if c = '\n' then ⟨next, cs⟩ :: breaks next cs else breaks next cs

def ofText (cs : List Char) : LineTable :=
  ⟨Text.byteLength cs, ⟨0, cs⟩ :: breaks 0 cs⟩

/-- The number of characters in the first `n` bytes of a text, or `n` when it is no boundary. -/
def countTo (n : Nat) (text : List Char) : Nat :=
  match Text.takeBytes? n text with
  | some passed => passed.length
  | none => n

/--
The position of a byte offset.  An offset past the end counts as the end.  The
column counts the characters since the start of the line, or its bytes when the
offset falls inside a character.
-/
def position (table : LineTable) (offset : Nat) : Position :=
  let place := min offset table.size
  let started := table.lines.takeWhile fun line => decide (line.start ≤ place)
  let line := started.getLastD ⟨0, []⟩
  ⟨started.length, countTo (place - line.start) line.text + 1⟩

end LineTable

def Position.ofOffset (cs : List Char) (offset : Nat) : Position :=
  (LineTable.ofText cs).position offset

end PascalUnit
