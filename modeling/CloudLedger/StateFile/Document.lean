import CloudLedger.Field
import CloudLedger.StateFile.Skip

/-!
# Reading a state file

A state file is read from left to right, each value as what its place calls for: a list, in it
reports, and in a report its fields by name.  A report may also be a bare list of its contents in
order, and a provider may be the name of a member without a value; unknown fields are passed over.

A value of another kind makes the document unexpected; but it is first read as what it is, and may
turn out not to be a value at all.
-/

namespace CloudLedger.StateFile

/-- The fault of a value of another kind than its place calls for. -/
def misfit : List UInt8 → DocumentFault
  | [] => .unfinished
  | b :: bs =>
    let fault {β : Type} : Except DocumentFault β → DocumentFault
      | .error f => f
      | .ok _ => .unexpected
    if b = byteOf 'n' then fault (word [byteOf 'u', byteOf 'l', byteOf 'l'] bs)
    else if b = byteOf 't' then fault (word [byteOf 'r', byteOf 'u', byteOf 'e'] bs)
    else if b = byteOf 'f' then fault (word [byteOf 'a', byteOf 'l', byteOf 's', byteOf 'e'] bs)
    else if startsNumber b then fault (number (b :: bs))
    else if b = quote then fault (string bs)
    else if b = byteOf '[' ∨ b = byteOf '\x7b' then .unexpected
    else .malformed

/-! ## Contents of fields -/

def readText (bs : List UInt8) : Except DocumentFault (Scanned String) :=
  match skipGap bs with
  | b :: rest => if b = quote then string rest else .error (misfit (b :: rest))
  | [] => .error .unfinished

def readNumber (bs : List UInt8) : Except DocumentFault (Scanned Number) :=
  match skipGap bs with
  | b :: rest => if startsNumber b then number (b :: rest) else .error (misfit (b :: rest))
  | [] => .error .unfinished

/-- Read a whole number between two bounds. -/
def readWhole (low high : Int) (bs : List UInt8) : Except DocumentFault (Scanned Int) := do
  match ← readNumber bs with
  | (.whole n, rest) => if low ≤ n ∧ n ≤ high then .ok (n, rest) else .error .unexpected
  | (.real _, _) => .error .unexpected

def providerOf (tag : String) : Except DocumentFault Provider :=
  match Provider.ofTag? tag with
  | some p => .ok p
  | none => .error .unexpected

def readNull (bs : List UInt8) : Except DocumentFault (Scanned Unit) :=
  match skipGap bs with
  | b :: rest =>
    if b = byteOf 'n' then word [byteOf 'u', byteOf 'l', byteOf 'l'] rest
    else .error (misfit (b :: rest))
  | [] => .error .unfinished

/-- Read a provider: its tag, or an object with the tag as the name of a null. -/
def readProvider (bs : List UInt8) : Except DocumentFault (Scanned Provider) := do
  match skipGap bs with
  | [] => .error .unfinished
  | b :: rest =>
    if b = quote then
      let (tag, rest) ← string rest
      return (← providerOf tag, rest)
    else if b = byteOf '\x7b' then
      let (_, rest) ← mark '"' rest
      let (tag, rest) ← string rest
      let p ← providerOf tag
      let (_, rest) ← mark ':' rest
      let (_, rest) ← readNull rest
      let (_, rest) ← mark '\x7d' rest
      return (p, rest)
    else .error .malformed

/-- The least and greatest numbers that a day or a month may be. -/
def dayBounds : Int × Int := (0, 4294967295)

/-- The least and greatest numbers that a year may be. -/
def yearBounds : Int × Int := (-2147483648, 2147483647)

/-- Read a whole number between bounds as the content of a field. -/
def readBounded (bounds : Int × Int) (bs : List UInt8) :
    Except DocumentFault (Scanned Content) := do
  let (n, rest) ← readWhole bounds.1 bounds.2 bs
  return (.whole n, rest)

/-- Read the content that a field calls for. -/
def readContent (f : Field) (bs : List UInt8) : Except DocumentFault (Scanned Content) :=
  match f with
  | .day | .month => readBounded dayBounds bs
  | .year => readBounded yearBounds bs
  | .usage | .cost => do
    let (n, rest) ← readNumber bs
    return (.amount n.toFloat, rest)
  | .provider => do
    let (p, rest) ← readProvider bs
    return (.provider p, rest)
  | _ => do
    let (s, rest) ← readText bs
    return (.text s, rest)

/-! ## Lists -/

/-- Whether a list goes on: the bytes of its next element, or nothing before its closing bracket. -/
def nextElement (first : Bool) (bs : List UInt8) : Except DocumentFault (Option (List UInt8)) :=
  match skipGap bs with
  | [] => .error .unfinished
  | b :: rest =>
    if b = byteOf ']' then .ok none
    else if first then .ok (some (b :: rest))
    else if b ≠ byteOf ',' then .error .malformed
    else match skipGap rest with
      | [] => .error .unfinished
      | c :: rest => if c = byteOf ']' then .error .malformed else .ok (some (c :: rest))

/-! ## Reports -/

abbrev Contents := List (Field × Content)

/-- Read the contents of the fields in order from a list. -/
def readRow (first : Bool) : List Field → List UInt8 → Except DocumentFault (Scanned Contents)
  | [], bs => do
    let (_, rest) ← mark ']' bs
    return ([], rest)
  | f :: fields, bs => do
    match ← nextElement first bs with
    | none => .error .unexpected
    | some element =>
      let (content, rest) ← readContent f element
      let (contents, rest) ← readRow false fields rest
      return ((f, content) :: contents, rest)

/-- Whether an object goes on: the bytes after the quote of its next name, or nothing before its
closing brace. -/
def nextName (first : Bool) (bs : List UInt8) : Except DocumentFault (Option (List UInt8)) :=
  let name : List UInt8 → Except DocumentFault (Option (List UInt8))
    | [] => .error .unfinished
    | b :: rest => if b = quote then .ok (some rest) else .error .malformed
  match skipGap bs with
  | [] => .error .unfinished
  | b :: rest =>
    if b = byteOf '\x7d' then .ok none
    else if first then name (b :: rest)
    else if b ≠ byteOf ',' then .error .malformed
    else name (skipGap rest)

/-- Read the members of an object up to its closing brace, given those before.  No field may come
twice.  Every member takes a byte. -/
def readMembers : Nat → Bool → Contents → List UInt8 → Except DocumentFault (Scanned Contents)
  | 0, _, _, _ => .error .unfinished
  | steps + 1, first, found, bs => do
    match ← nextName first bs with
    | none => return (found, (skipGap bs).tail)
    | some start =>
      let (name, rest) ← string start
      match Field.ofName? name with
      | none =>
        let (_, rest) ← mark ':' rest
        let (_, rest) ← skipValue rest
        readMembers steps false found rest
      | some f =>
        if (found.lookup f).isSome then .error .unexpected
        else
          let (_, rest) ← mark ':' rest
          let (content, rest) ← readContent f rest
          readMembers steps false ((f, content) :: found) rest

def reportOf (contents : Contents) : Except DocumentFault (Report Float) :=
  match Report.ofContents? fun f ↦ contents.lookup f with
  | some r => .ok r
  | none => .error .unexpected

def readReport (bs : List UInt8) : Except DocumentFault (Scanned (Report Float)) := do
  match skipGap bs with
  | [] => .error .unfinished
  | b :: rest =>
    if b = byteOf '[' then
      let (contents, rest) ← readRow true Field.all rest
      return (← reportOf contents, rest)
    else if b = byteOf '\x7b' then
      let (contents, rest) ← readMembers rest.length.succ true [] rest
      return (← reportOf contents, rest)
    else .error (misfit (b :: rest))

/-- Read reports up to the closing bracket of their list.  Every report takes a byte. -/
def readReports : Nat → Bool → List UInt8 → Except DocumentFault (Scanned (List (Report Float)))
  | 0, _, _ => .error .unfinished
  | steps + 1, first, bs => do
    match ← nextElement first bs with
    | none => return ([], (skipGap bs).tail)
    | some element =>
      let (r, rest) ← readReport element
      let (reports, rest) ← readReports steps false rest
      return (r :: reports, rest)

def read (bs : List UInt8) : Except DocumentFault (List (Report Float)) :=
  match skipGap bs with
  | [] => .error .unfinished
  | b :: rest => do
    if b = byteOf '[' then
      let (reports, rest) ← readReports rest.length.succ true rest
      if skipGap rest = [] then return reports else throw .malformed
    else throw (misfit (b :: rest))

end CloudLedger.StateFile
