import PascalUnit.Toml.Value

/-!
# Scalars and keys of TOML

Each reader takes a text and gives what stands at its front together with the
text after it, or nothing when the front is not of its kind.
-/

namespace PascalUnit
namespace Toml

abbrev Reader (α : Type) := List Char → Option (α × List Char)

/-!
## Blanks, line ends and comments
-/

def isBlank (c : Char) : Bool :=
  c = ' ' || c = '\t'

def skipBlanks (cs : List Char) : List Char :=
  cs.dropWhile isBlank

def isPrintable (c : Char) : Bool :=
  c = '\t' || (decide (0x20 ≤ c.toNat) && c ≠ '\x7f')

def newLine? : List Char → Option (List Char)
  | '\n' :: cs => some cs
  | '\r' :: '\n' :: cs => some cs
  | _ => none

def skipComment : List Char → List Char
  | '#' :: cs => cs.dropWhile isPrintable
  | cs => cs

/-- The text after the end of a line: blanks, a comment, and a line break or the end of the text. -/
def lineEnd? (cs : List Char) : Option (List Char) :=
  let rest := skipComment (skipBlanks cs)
  if rest.isEmpty then some [] else newLine? rest

def skipLines : Nat → List Char → List Char
  | 0, cs => cs
  | fuel + 1, cs =>
      let rest := skipComment (skipBlanks cs)
      match newLine? rest with
      | some rest => skipLines fuel rest
      | none => rest

/-!
## Quoted texts
-/

def hexValue? (c : Char) : Option Nat :=
  if c.isDigit then some (c.toNat - '0'.toNat)
  else if 'a' ≤ c && c ≤ 'f' then some (c.toNat - 'a'.toNat + 10)
  else if 'A' ≤ c && c ≤ 'F' then some (c.toNat - 'A'.toNat + 10)
  else none

def codePoint? (width : Nat) : Reader Char := fun cs =>
  let digits := cs.take width
  match digits.mapM hexValue? with
  | none => none
  | some values =>
      let code := values.foldl (fun n d => 16 * n + d) 0
      if digits.length = width ∧ code.isValidChar then
        some (Char.ofNat code, cs.drop width)
      else none

def escaped? : Reader Char
  | 'b' :: cs => some ('\x08', cs)
  | 't' :: cs => some ('\t', cs)
  | 'n' :: cs => some ('\n', cs)
  | 'f' :: cs => some ('\x0c', cs)
  | 'r' :: cs => some ('\r', cs)
  | '"' :: cs => some ('"', cs)
  | '\\' :: cs => some ('\\', cs)
  | 'u' :: cs => codePoint? 4 cs
  | 'U' :: cs => codePoint? 8 cs
  | _ => none

def basicText : Nat → Reader (List Char)
  | 0, _ => none
  | _, [] => none
  | fuel + 1, c :: cs =>
      if c = '"' then some ([], cs)
      else if c = '\\' then
        match escaped? cs with
        | none => none
        | some (d, rest) => (basicText fuel rest).map fun (text, rest) => (d :: text, rest)
      else if isPrintable c then
        (basicText fuel cs).map fun (text, rest) => (c :: text, rest)
      else none

def literalText : Reader (List Char)
  | [] => none
  | c :: cs =>
      if c = '\'' then some ([], cs)
      else if isPrintable c then
        (literalText cs).map fun (text, rest) => (c :: text, rest)
      else none

/--
The quotes at the front of a text over several lines: three of them close it,
and up to two more before those belong to it.
-/
def closing? (quote : Char) (cs : List Char) : Option (List Char × List Char) :=
  let run := min 5 (cs.takeWhile fun c => decide (c = quote)).length
  if run < 3 then none
  else some (List.replicate (run - 3) quote, cs.drop run)

/-- The text after a backslash at the end of a line: the blanks up to the next word are dropped. -/
def continued? (cs : List Char) : Option (List Char) :=
  match newLine? (skipBlanks cs) with
  | none => none
  | some rest => some (rest.dropWhile fun c => isBlank c || c = '\n' || c = '\r')

def longText (quote : Char) (escapes : Bool) : Nat → Reader (List Char)
  | 0, _ => none
  | _, [] => none
  | fuel + 1, c :: cs =>
      match closing? quote (c :: cs) with
      | some (text, rest) => some (text, rest)
      | none =>
          match newLine? (c :: cs) with
          | some rest =>
              (longText quote escapes fuel rest).map fun (text, rest) => ('\n' :: text, rest)
          | none =>
              if escapes && c = '\\' then
                match continued? cs with
                | some rest => longText quote escapes fuel rest
                | none =>
                    match escaped? cs with
                    | none => none
                    | some (d, rest) =>
                        (longText quote escapes fuel rest).map fun (text, rest) =>
                          (d :: text, rest)
              else if isPrintable c then
                (longText quote escapes fuel cs).map fun (text, rest) => (c :: text, rest)
              else none

def shortQuoted? : Reader String
  | '"' :: cs => (basicText (cs.length + 1) cs).map fun (text, rest) => (String.ofList text, rest)
  | '\'' :: cs => (literalText cs).map fun (text, rest) => (String.ofList text, rest)
  | _ => none

def skipNewLine (cs : List Char) : List Char :=
  (newLine? cs).getD cs

def quoted? : Reader String
  | '"' :: '"' :: '"' :: cs =>
      (longText '"' true (cs.length + 1) (skipNewLine cs)).map fun (text, rest) =>
        (String.ofList text, rest)
  | '\'' :: '\'' :: '\'' :: cs =>
      (longText '\'' false (cs.length + 1) (skipNewLine cs)).map fun (text, rest) =>
        (String.ofList text, rest)
  | cs => shortQuoted? cs

/-!
## Keys
-/

def isBareKeyPart (c : Char) : Bool :=
  c.isAlphanum || c = '_' || c = '-'

def simpleKey? : Reader String := fun cs =>
  match shortQuoted? cs with
  | some found => some found
  | none =>
      let bare := cs.takeWhile isBareKeyPart
      if bare.isEmpty then none
      else some (String.ofList bare, cs.dropWhile isBareKeyPart)

def key? : Nat → Reader (List String)
  | 0, _ => none
  | fuel + 1, cs =>
      match simpleKey? cs with
      | none => none
      | some (part, rest) =>
          match skipBlanks rest with
          | '.' :: more =>
              (key? fuel (skipBlanks more)).map fun (parts, rest) => (part :: parts, rest)
          | _ => some ([part], rest)

/-!
## Numbers
-/

/-- Digits of a class with single underscores between them, as the digits alone. -/
def grouped? (isDigit : Char → Bool) (cs : List Char) : Option (List Char) :=
  let groups := cs.splitOn '_'
  if groups.all fun g => !g.isEmpty && g.all isDigit then some groups.flatten else none

def splitSign : List Char → Bool × List Char
  | '-' :: cs => (true, cs)
  | '+' :: cs => (false, cs)
  | cs => (false, cs)

/-- Decimal digits without superfluous leading zeros. -/
def decimal? (cs : List Char) : Option Nat :=
  match grouped? Char.isDigit cs with
  | none => none
  | some digits =>
      if digits.length > 1 ∧ digits.head? = some '0' then none
      else some (Nat.ofDigitChars 10 digits 0)

def isBaseDigit (base : Nat) (c : Char) : Bool :=
  match hexValue? c with
  | some d => d < base
  | none => false

def based? (base : Nat) (cs : List Char) : Option Int :=
  match grouped? (isBaseDigit base) cs with
  | none => none
  | some digits =>
      some (digits.foldl (fun n c => base * n + (hexValue? c).getD 0) 0 : Nat)

/-- Integers are 64 bits wide, signed. -/
def inRange (n : Int) : Bool :=
  decide (-0x8000000000000000 ≤ n ∧ n < 0x8000000000000000)

def integer? (cs : List Char) : Option Int :=
  let value :=
    match cs with
    | '0' :: 'x' :: ds => based? 16 ds
    | '0' :: 'o' :: ds => based? 8 ds
    | '0' :: 'b' :: ds => based? 2 ds
    | _ =>
        let (negative, digits) := splitSign cs
        (decimal? digits).map fun n => if negative then -(n : Int) else n
  value.filter inRange

def splitAt? (p : Char → Bool) (cs : List Char) : List Char × Option (List Char) :=
  match cs.dropWhile fun c => !p c with
  | [] => (cs, none)
  | _ :: rest => (cs.takeWhile fun c => !p c, some rest)

def exponent? (cs : List Char) : Option Int :=
  let (negative, digits) := splitSign cs
  match grouped? Char.isDigit digits with
  | none => none
  | some ds =>
      let n : Int := Nat.ofDigitChars 10 ds 0
      some (if negative then -n else n)

def finiteReal? (negative : Bool) (cs : List Char) : Option Real :=
  let (mantissa, power) := splitAt? (fun c => c = 'e' || c = 'E') cs
  let (whole, fraction) := splitAt? (fun c => c = '.') mantissa
  if power.isNone && fraction.isNone then none
  else
    match decimal? whole, fraction.elim (some []) (grouped? Char.isDigit),
        power.elim (some 0) exponent? with
    | some n, some places, some e =>
        let digits := n * Nat.pow 10 places.length + Nat.ofDigitChars 10 places 0
        Real.ofDecimal? negative digits (e - places.length)
    | _, _, _ => none

def real? (cs : List Char) : Option Real :=
  let (negative, body) := splitSign cs
  if body = "inf".toList then some (.infinite negative)
  else if body = "nan".toList then some .notANumber
  else finiteReal? negative body

/-!
## Dates and times
-/

def fixed? (width : Nat) : Reader Nat := fun cs =>
  let digits := cs.take width
  if digits.length = width ∧ digits.all Char.isDigit then
    some (Nat.ofDigitChars 10 digits 0, cs.drop width)
  else none

def isLeap (year : Nat) : Bool :=
  year % 4 = 0 && (year % 100 ≠ 0 || year % 400 = 0)

def daysIn (year month : Nat) : Nat :=
  if month = 2 then if isLeap year then 29 else 28
  else if month = 4 || month = 6 || month = 9 || month = 11 then 30
  else 31

def date? : Reader (List Char) := fun cs =>
  match fixed? 4 cs with
  | some (year, '-' :: cs₁) =>
      match fixed? 2 cs₁ with
      | some (month, '-' :: cs₂) =>
          match fixed? 2 cs₂ with
          | some (day, cs₃) =>
              if 1 ≤ month ∧ month ≤ 12 ∧ 1 ≤ day ∧ day ≤ daysIn year month then
                some (cs.take 10, cs₃)
              else none
          | none => none
      | _ => none
  | _ => none

/-- The fraction of a second to nine places, trailing zeros dropped. -/
def fraction (cs : List Char) : List Char :=
  let places := ((cs.take 9).reverse.dropWhile fun c => decide (c = '0')).reverse
  if places.isEmpty then [] else '.' :: places

def time? : Reader (List Char) := fun cs =>
  match fixed? 2 cs with
  | some (hour, ':' :: cs₁) =>
      match fixed? 2 cs₁ with
      | some (minute, ':' :: cs₂) =>
          match fixed? 2 cs₂ with
          | some (second, cs₃) =>
              if hour ≤ 23 ∧ minute ≤ 59 ∧ second ≤ 60 then
                match cs₃ with
                | '.' :: cs₄ =>
                    let places := cs₄.takeWhile Char.isDigit
                    if places.isEmpty then none
                    else some (cs.take 8 ++ fraction places, cs₄.dropWhile Char.isDigit)
                | _ => some (cs.take 8, cs₃)
              else none
          | none => none
      | _ => none
  | _ => none

/-- The distance of a time from universal time, in its normal spelling; no distance is positive. -/
def offset? : List Char → Option (List Char)
  | ['Z'] => some ['Z']
  | ['z'] => some ['Z']
  | c :: cs =>
      if c = '+' || c = '-' then
        match fixed? 2 cs with
        | some (hour, ':' :: rest) =>
            match fixed? 2 rest with
            | some (minute, []) =>
                if hour = 0 ∧ minute = 0 then some ('+' :: cs)
                else if hour ≤ 23 ∧ minute ≤ 59 then some (c :: cs)
                else none
            | _ => none
        | _ => none
      else none
  | [] => none

def moment? (cs : List Char) : Option (List Char) :=
  match date? cs with
  | some (date, []) => some date
  | some (date, c :: rest) =>
      if c = 'T' || c = 't' || c = ' ' then
        match time? rest with
        | some (time, []) => some (date ++ 'T' :: time)
        | some (time, zone) => (offset? zone).map fun z => date ++ 'T' :: time ++ z
        | none => none
      else none
  | none =>
      match time? cs with
      | some (time, []) => some time
      | _ => none

/-!
## Unquoted scalars
-/

def isScalarPart (c : Char) : Bool :=
  c.isAlphanum || c = '_' || c = '+' || c = '-' || c = '.' || c = ':'

def plain? (cs : List Char) : Option Value :=
  if cs = "true".toList then some (.boolean true)
  else if cs = "false".toList then some (.boolean false)
  else
    match integer? cs with
    | some n => some (.integer n)
    | none =>
        match real? cs with
        | some r => some (.real r)
        | none => (moment? cs).map fun text => .text (String.ofList text)

/-- A date may be followed by a blank and a time; otherwise a scalar ends at the first blank. -/
def scalarText (cs : List Char) : List Char × List Char :=
  let first := cs.takeWhile isScalarPart
  let rest := cs.dropWhile isScalarPart
  match date? first, rest with
  | some (_, []), ' ' :: more =>
      let second := more.takeWhile isScalarPart
      if (time? second).isSome then
        (first ++ ' ' :: second, more.dropWhile isScalarPart)
      else (first, rest)
  | _, _ => (first, rest)

def scalar? : Reader Value := fun cs =>
  match quoted? cs with
  | some (text, rest) => some (.text text, rest)
  | none =>
      let (text, rest) := scalarText cs
      (plain? text).map fun v => (v, rest)

end Toml
end PascalUnit
