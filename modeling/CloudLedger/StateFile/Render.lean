import CloudLedger.Amount.Layout
import CloudLedger.Field
import CloudLedger.StateFile.Scan

/-!
# Writing a state file

A state file is a JSON list of reports, one field on a line, indented by two spaces a level.  In
strings only quotes, backslashes and control characters are escaped.
-/

namespace CloudLedger.StateFile

open Text

/-- The two hexadecimal digits of a control character. -/
def hexDigits (n : Nat) : List UInt8 :=
  [byteOf (Nat.digitChar (n / 16)), byteOf (Nat.digitChar (n % 16))]

/-- The bytes of a character within a string. -/
def escaped (c : Char) : List UInt8 :=
  if c = '"' then [backslash, quote]
  else if c = '\\' then [backslash, backslash]
  else if c = '\x08' then [backslash, byteOf 'b']
  else if c = '\x0C' then [backslash, byteOf 'f']
  else if c = '\n' then [backslash, byteOf 'n']
  else if c = '\r' then [backslash, byteOf 'r']
  else if c = '\t' then [backslash, byteOf 't']
  else if c.toNat < 0x20 then
    [backslash, byteOf 'u', byteOf '0', byteOf '0'] ++ hexDigits c.toNat
  else String.utf8EncodeChar c

def renderString (s : String) : List UInt8 := quote :: s.toList.flatMap escaped ++ [quote]

def renderContent : Content → List UInt8
  | .text s => renderString s
  | .provider p => renderString p.tag
  | .whole n => Utf8.encode (intNumeral n)
  | .amount x => Utf8.encode (Amount.Layout.state.text x)

/-- Put commas between parts. -/
def commaJoined (parts : List (List UInt8)) : List UInt8 := [byteOf ','].intercalate parts

/-- Write a field of a report on a line of its own. -/
def renderField (r : Report Float) (f : Field) : List UInt8 :=
  Utf8.encode "\n    " ++ renderString f.name ++ Utf8.encode ": " ++ renderContent (r.content f)

def renderReport (r : Report Float) : List UInt8 :=
  Utf8.encode "\n  \x7b" ++ commaJoined (Field.all.map (renderField r)) ++ Utf8.encode "\n  \x7d"

def render (reports : List (Report Float)) : List UInt8 :=
  if reports = [] then Utf8.encode "[]"
  else Utf8.encode "[" ++ commaJoined (reports.map renderReport) ++ Utf8.encode "\n]"

end CloudLedger.StateFile
