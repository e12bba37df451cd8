import CloudLedger.Text.Utf8

/-!
# Paths

A path is kept as the text that was given, because messages repeat it; its pieces lie between the
slashes.  Empty pieces and single dots say nothing and are left out when a path is taken apart,
except for a dot at the very start.

The operating system takes no path that holds a null character, and sets limits to the bytes of a
path and of a name.
-/

namespace CloudLedger.Files

/-- The text of a path. -/
structure FilePath where
  text : String
deriving DecidableEq

def splitSlashes : List Char → List (List Char)
  | [] => [[]]
  | c :: cs =>
    if c = '/' then [] :: splitSlashes cs
    else match splitSlashes cs with
      | piece :: rest => (c :: piece) :: rest
      | [] => [[c]]

def longestName : Nat := 255

def longestPath : Nat := 4095

def size (text : String) : Nat := (Text.Utf8.encode text).length

def joinSlashes (pieces : List String) : String :=
  String.ofList (['/'].intercalate (pieces.map String.toList))

namespace FilePath

/-- The pieces between the slashes. -/
def pieces (p : FilePath) : List String := (splitSlashes p.text.toList).map String.ofList

def isAbsolute (p : FilePath) : Bool := p.text.toList.head? = some '/'

/-- Whether a path ends in a slash, which only a folder may. -/
def endsInSlash (p : FilePath) : Bool := p.text.toList.getLast? = some '/'

def holdsNull (p : FilePath) : Bool := p.text.toList.contains '\x00'

/-- The pieces that are not empty. -/
def names (p : FilePath) : List String := p.pieces.filter fun name ↦ name ≠ ""

/-- Drop the pieces at the end that say nothing. -/
def dropSilent (names : List String) : List String :=
  (names.reverse.dropWhile fun name ↦ name = "" || name = ".").reverse

/-- The first piece, which is empty for the root, and the others up to the last one that counts. -/
def spine (p : FilePath) : String × List String := (p.pieces.headD "", dropSilent (p.pieces.drop 1))

/-- Join pieces with slashes; the empty piece alone is the root. -/
def ofSpine (first : String) (rest : List String) : FilePath :=
  ⟨if rest = [] ∧ first = "" then "/" else joinSlashes (first :: rest)⟩

/-- The folder that a path lies in.  The root and the empty path lie in none. -/
def parent? (p : FilePath) : Option FilePath :=
  match p.spine with
  | (first, []) => if first = "" then none else some ⟨""⟩
  | (first, rest) => some (ofSpine first (dropSilent rest.dropLast))

/-- The last piece, if it is a name. -/
def fileName? (p : FilePath) : Option String :=
  let (first, rest) := p.spine
  let last := rest.getLast?.getD first
  if last ∈ ["", ".", ".."] then none else some last

/-- Split a file name at its last dot.  A dot at the start begins no extension. -/
def splitName (name : String) : String × Option String :=
  let cs := name.toList
  let after := (cs.reverse.takeWhile fun c ↦ c ≠ '.').reverse
  let before := cs.take (cs.length - after.length - 1)
  if before = [] then (name, none) else (String.ofList before, some (String.ofList after))

/-- The part of the file name after its last dot. -/
def extension? (p : FilePath) : Option String := p.fileName?.bind fun name ↦ (splitName name).2

/-- Put another extension in the place of the last one.  A path without a file name stays as it is.
The old extension is first cut off the end of the path, where only its dot is left; if this leaves
two dots, they name no file that an extension can be put to. -/
def withExtension (p : FilePath) (extension : String) : FilePath :=
  match p.fileName? with
  | none => p
  | some name =>
    let before := p.pieces.take p.spine.2.length
    let stem := (splitName name).1
    let endsPath := p.pieces.getLast? = some name
    ⟨joinSlashes (before ++ [if stem = "." ∧ endsPath then ".." else stem ++ "." ++ extension])⟩

/-- The path of a name within a folder. -/
def join (p : FilePath) (name : String) : FilePath :=
  ⟨if p.text = "" ∨ p.endsInSlash then p.text ++ name else p.text ++ "/" ++ name⟩

end FilePath

end CloudLedger.Files
