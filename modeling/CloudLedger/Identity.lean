import CloudLedger.Digest.Sha256
import CloudLedger.Period
import CloudLedger.Provider
import CloudLedger.Text.Utf8

/-!
# Billing lines and their identities

A billing line is what usage is counted for: a service that an account uses in a region.  A line on
one day has an identity, the SHA-256 digest of its parts written one after the other with a
separator between them.  Reports of one identity are parts of the same figure.
-/

namespace CloudLedger

open Text

/-- What usage is counted for. -/
structure Line where
  provider : Provider
  account : String
  service : String
  region : String
deriving DecidableEq

/-- The key of a line on a day. -/
structure Identity where
  digest : String
deriving DecidableEq

namespace Identity

/-- The byte between the parts of a line. -/
def separator : UInt8 := 0x1F

/-- The texts that identify a line on a day. -/
def parts (line : Line) (period : Period) : List String :=
  [line.provider.tag, line.account, line.service, line.region, intNumeral period.year.toInt,
    natNumeral period.month.toNat, natNumeral period.day.toNat]

/-- The bytes that a digest is taken of. -/
def preimage (line : Line) (period : Period) : List UInt8 :=
  [separator].intercalate ((parts line period).map Utf8.encode)

def ofLine (line : Line) (period : Period) : Identity :=
  ⟨Digest.Sha256.hexDigest (preimage line period)⟩

end Identity

end CloudLedger
