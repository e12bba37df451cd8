/-!
# UTF-8

Files are byte strings and cells are texts.  `encode` writes a text as bytes; `decode?` reads bytes
that are well-formed throughout, and `decodeLossy` reads any bytes, putting one replacement
character for each longest piece that begins a character and does not finish it.

Both readers are one machine, `step`, that holds at most one unfinished character.
-/

namespace CloudLedger.Text.Utf8

def encode (s : String) : List UInt8 := s.toList.flatMap String.utf8EncodeChar

/-- A character of which some bytes have been read. -/
structure Pending where
  /-- The bits read so far. -/
  value : Nat
  /-- How many bytes are due after the next one. -/
  due : Nat
  /-- The least byte that may come next. -/
  low : Nat
  /-- The greatest byte that may come next. -/
  high : Nat

/-- What reading one byte yields: finished pieces, each a character or `none` for a piece that is
not well-formed, and the character now under way. -/
abbrev Step := List (Option Char) × Option Pending

/-- Read the first byte of a character.  The ranges for the second byte rule out overlong forms,
surrogates and values above the last code point. -/
def lead (b : UInt8) : Step :=
  let n := b.toNat
  if n < 0x80 then ([some (Char.ofNat n)], none)
  else if n < 0xC2 then ([none], none)
  else if n < 0xE0 then ([], some ⟨n - 0xC0, 0, 0x80, 0xBF⟩)
  else if n < 0xF0 then
    ([], some ⟨n - 0xE0, 1, if n = 0xE0 then 0xA0 else 0x80, if n = 0xED then 0x9F else 0xBF⟩)
  else if n < 0xF5 then
    ([], some ⟨n - 0xF0, 2, if n = 0xF0 then 0x90 else 0x80, if n = 0xF4 then 0x8F else 0xBF⟩)
  else ([none], none)

/-- Read one byte.  A byte that cannot continue the character under way ends that piece and starts
the next one. -/
def step : Option Pending → UInt8 → Step
  | none, b => lead b
  | some p, b =>
    if p.low ≤ b.toNat ∧ b.toNat ≤ p.high then
      let value := p.value * 64 + (b.toNat - 0x80)
      match p.due with
      | 0 => ([some (Char.ofNat value)], none)
      | due + 1 => ([], some ⟨value, due, 0x80, 0xBF⟩)
    else
      let (pieces, next) := lead b
      (none :: pieces, next)

/-- Read all bytes, given the character under way. -/
def pieces : Option Pending → List UInt8 → List (Option Char)
  | none, [] => []
  | some _, [] => [none]
  | under, b :: bs =>
    let (done, next) := step under b
    done ++ pieces next bs

/-- The text whose UTF-8 bytes these are, if they are well-formed. -/
def decode? (bs : List UInt8) : Option String :=
  ((pieces none bs).mapM id).map String.ofList

/-- The text of any bytes, with U+FFFD for each piece that is not well-formed. -/
def decodeLossy (bs : List UInt8) : String :=
  String.ofList ((pieces none bs).map fun piece ↦ piece.getD '\uFFFD')

end CloudLedger.Text.Utf8
