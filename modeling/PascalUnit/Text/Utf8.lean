/-!
# Decoding bytes with replacement

Bytes that are no UTF-8 are decoded all the same: each longest part that could
have begun a character, and each byte that could not, gives one replacement
character.
-/

namespace PascalUnit
namespace Text

def replacement : Char := '\ufffd'

/--
Goes on with a character that wants `missing` more bytes, the next of which lies
between `low` and `high`.  Gives the character and how many bytes were used.
-/
def decodeTail (missing low high code used : Nat) (bytes : List UInt8) : Char × Nat :=
  match missing, bytes with
  | 0, _ => (Char.ofNat code, used)
  | _ + 1, [] => (replacement, used)
  | missing + 1, b :: bytes =>
      if low ≤ b.toNat ∧ b.toNat ≤ high then
        decodeTail missing 0x80 0xBF (code * 64 + b.toNat % 64) (used + 1) bytes
      else (replacement, used)

def decodeFirst (first : UInt8) (bytes : List UInt8) : Char × Nat :=
  let b := first.toNat
  if b < 0x80 then (Char.ofNat b, 0)
  else if 0xC2 ≤ b ∧ b ≤ 0xDF then decodeTail 1 0x80 0xBF (b % 32) 0 bytes
  else if b = 0xE0 then decodeTail 2 0xA0 0xBF (b % 16) 0 bytes
  else if b = 0xED then decodeTail 2 0x80 0x9F (b % 16) 0 bytes
  else if 0xE1 ≤ b ∧ b ≤ 0xEF then decodeTail 2 0x80 0xBF (b % 16) 0 bytes
  else if b = 0xF0 then decodeTail 3 0x90 0xBF (b % 8) 0 bytes
  else if b = 0xF4 then decodeTail 3 0x80 0x8F (b % 8) 0 bytes
  else if 0xF1 ≤ b ∧ b ≤ 0xF3 then decodeTail 3 0x80 0xBF (b % 8) 0 bytes
  else (replacement, 0)

def decodeBytes : List UInt8 → List Char
  | [] => []
  | b :: bytes =>
      let (c, used) := decodeFirst b bytes
      c :: decodeBytes (bytes.drop used)
termination_by bytes => bytes.length
decreasing_by simp only [List.length_drop, List.length_cons]; omega

end Text
end PascalUnit
