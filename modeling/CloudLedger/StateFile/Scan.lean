import CloudLedger.Fault
import CloudLedger.Text.Utf8

/-!
# Scanning a state file

State files are JSON documents.  This module reads what is common to all places in one: the blanks
between its parts, fixed words, and strings with their escapes.  Scanners take the bytes that are
left and give back what they read with the rest; the first problem met decides which fault is
reported.
-/

namespace CloudLedger.StateFile

open Text

/-- What a scanner read and the bytes after it. -/
abbrev Scanned (β : Type) := β × List UInt8

def byteOf (c : Char) : UInt8 := c.toNat.toUInt8

/-- Whether a byte may stand between the parts of a document. -/
def isGap (b : UInt8) : Bool := b = 0x20 || b = 0x09 || b = 0x0A || b = 0x0D

/-- Drop the blanks in front. -/
def skipGap (bs : List UInt8) : List UInt8 := bs.dropWhile isGap

def isDigitByte (b : UInt8) : Bool := 0x30 ≤ b && b ≤ 0x39

/-- Read the rest of a fixed word. -/
def word : List UInt8 → List UInt8 → Except DocumentFault (Scanned Unit)
  | [], bs => .ok ((), bs)
  | _ :: _, [] => .error .unfinished
  | w :: ws, b :: bs => if b = w then word ws bs else .error .malformed

/-- Read one mark, with any blanks before it. -/
def mark (c : Char) (bs : List UInt8) : Except DocumentFault (Scanned Unit) :=
  match skipGap bs with
  | [] => .error .unfinished
  | b :: rest => if b = byteOf c then .ok ((), rest) else .error .malformed

/-! ## Strings -/

def quote : UInt8 := 0x22

/-- A backslash, which starts an escape. -/
def backslash : UInt8 := 0x5C

/-- The escapes of a single letter and the characters that they stand for. -/
def letterEscapes : List (UInt8 × UInt8) :=
  [(quote, quote), (backslash, backslash), (byteOf '/', byteOf '/'), (byteOf 'b', 0x08),
    (byteOf 'f', 0x0C), (byteOf 'n', 0x0A), (byteOf 'r', 0x0D), (byteOf 't', 0x09)]

def hexValue? (b : UInt8) : Option Nat :=
  let n := b.toNat
  if isDigitByte b then some (n - 0x30)
  else if 0x41 ≤ n ∧ n ≤ 0x46 then some (n - 0x37)
  else if 0x61 ≤ n ∧ n ≤ 0x66 then some (n - 0x57)
  else none

/-- The value of a row of hexadecimal digits. -/
def hexNumber? (digits : List UInt8) : Option Nat :=
  (digits.mapM hexValue?).map fun values ↦ values.foldl (fun n v ↦ 16 * n + v) 0

/-- Where in a string the scanner is. -/
inductive Spot where
  | plain
  /-- After a backslash. -/
  | escape
  /-- Within the four digits of a character, the latest first, after the first half of a pair if
  there was one. -/
  | hex (half : Option Nat) (digits : List UInt8)
  /-- Before the backslash of the second half of a pair. -/
  | pairBackslash (half : Nat)
  /-- Before the letter of the second half of a pair. -/
  | pairLetter (half : Nat)

/-- Whether a number is the first half of a pair that stands for one character. -/
def isFirstHalf (n : Nat) : Bool := 0xD800 ≤ n && n ≤ 0xDBFF

/-- Whether a number is the second half of such a pair. -/
def isSecondHalf (n : Nat) : Bool := 0xDC00 ≤ n && n ≤ 0xDFFF

/-- What four hexadecimal digits yield: the next spot and the bytes of a finished character. -/
def finishHex (half : Option Nat) (n : Nat) : Except DocumentFault (Spot × List UInt8) :=
  match half with
  | some first =>
    if isSecondHalf n then
      .ok (.plain, String.utf8EncodeChar
        (Char.ofNat ((first - 0xD800) * 0x400 + (n - 0xDC00) + 0x10000)))
    else .error .malformed
  | none =>
    if isFirstHalf n then .ok (.pairBackslash n, [])
    else if isSecondHalf n then .error .malformed
    else .ok (.plain, String.utf8EncodeChar (Char.ofNat n))

/-- What one byte within a string yields.  A string whose content does not matter need not pair its
halves. -/
def stringStep (matters : Bool) (spot : Spot) (b : UInt8) :
    Except DocumentFault (Spot × List UInt8) :=
  match spot with
  | .plain =>
    if b = backslash then .ok (.escape, [])
    else if b < 0x20 then .error .malformed
    else .ok (.plain, [b])
  | .escape =>
    if b = byteOf 'u' then .ok (.hex none [], [])
    else match letterEscapes.lookup b with
      | some meant => .ok (.plain, [meant])
      | none => .error .malformed
  | .hex half digits =>
    if digits.length < 3 then .ok (.hex half (b :: digits), [])
    else match hexNumber? (b :: digits).reverse with
      | none => .error .malformed
      | some n => if matters then finishHex half n else .ok (.plain, [])
  | .pairBackslash half =>
    if b = backslash then .ok (.pairLetter half, []) else .error .malformed
  | .pairLetter half =>
    if b = byteOf 'u' then .ok (.hex (some half) [], []) else .error .malformed

/-- Whether a byte ends a string at a spot. -/
def Spot.endsAt (spot : Spot) (b : UInt8) : Bool :=
  match spot with
  | .plain => b = quote
  | _ => false

/-- Read the bytes of a string up to its closing quote, given those read so far, latest first. -/
def stringBytes (matters : Bool) :
    Spot → List UInt8 → List UInt8 → Except DocumentFault (Scanned (List UInt8))
  | _, _, [] => .error .unfinished
  | spot, read, b :: bs =>
    if spot.endsAt b then .ok (read.reverse, bs)
    else match stringStep matters spot b with
      | .error fault => .error fault
      | .ok (next, more) => stringBytes matters next (more.reverse ++ read) bs

/-- Read a string after its opening quote. -/
def string (bs : List UInt8) : Except DocumentFault (Scanned String) := do
  let (bytes, rest) ← stringBytes true .plain [] bs
  match Utf8.decode? bytes with
  | some s => .ok (s, rest)
  | none => .error .malformed

/-- Pass over a string after its opening quote. -/
def skipString (bs : List UInt8) : Except DocumentFault (Scanned Unit) := do
  let (_, rest) ← stringBytes false .plain [] bs
  return ((), rest)

end CloudLedger.StateFile
