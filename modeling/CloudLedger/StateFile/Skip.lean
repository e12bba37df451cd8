import CloudLedger.StateFile.Number

/-!
# Values of no concern

A state file may hold fields that reports do not have.  Their values are passed over, checking only
that they are values: strings need not be text and numbers may be of any size.
-/

namespace CloudLedger.StateFile

/-- What a value lies within. -/
inductive Enclosure where
  | list
  | object
deriving DecidableEq

def Enclosure.closing : Enclosure → UInt8
  | .list => byteOf ']'
  | .object => byteOf '\x7d'

/-- What comes next while passing over a value. -/
inductive Due where
  | value
  /-- The end of the innermost enclosure or its next member, with a comma before it unless it is the
  first one. -/
  | member (first : Bool)

/-- Pass over a value without parts; `none` stands for the start of an enclosure. -/
def skipScalar : List UInt8 → Except DocumentFault (Scanned (Option Enclosure))
  | [] => .error .unfinished
  | b :: bs => do
    if b = byteOf '[' then return (some .list, bs)
    if b = byteOf '\x7b' then return (some .object, bs)
    let (_, rest) ←
      if b = byteOf 'n' then word [byteOf 'u', byteOf 'l', byteOf 'l'] bs
      else if b = byteOf 't' then word [byteOf 'r', byteOf 'u', byteOf 'e'] bs
      else if b = byteOf 'f' then word [byteOf 'a', byteOf 'l', byteOf 's', byteOf 'e'] bs
      else if b = quote then skipString bs
      else if b = byteOf '-' then skipNumber bs
      else if isDigitByte b then skipNumber (b :: bs)
      else .error .malformed
    return (none, rest)

/-- Pass over the name of a member and the colon after it. -/
def skipName (bs : List UInt8) : Except DocumentFault (Scanned Unit) := do
  let (_, rest) ← mark '"' bs
  let (_, rest) ← skipString rest
  mark ':' rest

/-- Pass over what is due within some enclosures, the innermost first.  Every other step at least
takes a byte, so that twice as many steps as bytes suffice. -/
def skipWithin : Nat → List Enclosure → Due → List UInt8 → Except DocumentFault (Scanned Unit)
  | 0, _, _, _ => .error .unfinished
  | steps + 1, around, .value, bs => do
    match ← skipScalar (skipGap bs) with
    | (some inner, rest) => skipWithin steps (inner :: around) (.member true) rest
    | (none, rest) => skipWithin steps around (.member false) rest
  | _ + 1, [], .member _, bs => .ok ((), bs)
  | steps + 1, inner :: around, .member first, bs => do
    match skipGap bs with
    | [] => .error .unfinished
    | b :: rest =>
      if b = inner.closing then skipWithin steps around (.member false) rest
      else if !first ∧ b ≠ byteOf ',' then .error .malformed
      else
        let start := if first then b :: rest else rest
        match inner with
        | .list => skipWithin steps (inner :: around) .value start
        | .object =>
          let (_, rest) ← skipName start
          skipWithin steps (inner :: around) .value rest

def skipValue (bs : List UInt8) : Except DocumentFault (Scanned Unit) :=
  skipWithin (2 * bs.length + 2) [] .value bs

end CloudLedger.StateFile
