/-!
# Providers

Usage is billed by three cloud providers.  They differ in how an export reports time: one gives
running totals of the month, one gives a file per day, and one gives dated lines.
-/

namespace CloudLedger

inductive Provider where
  | aws
  | azure
  | gcp
deriving DecidableEq

namespace Provider

/-- All providers in the order that batches run and archives list them. -/
def all : List Provider := [.azure, .gcp, .aws]

def tag : Provider → String
  | .aws => "AWS"
  | .azure => "Azure"
  | .gcp => "GCP"

def ofTag? (s : String) : Option Provider := all.find? fun p ↦ p.tag = s

def rank (p : Provider) : Nat := all.idxOf p

/-- Whether an export holds running totals of the month instead of amounts by day. -/
def givesTotals (p : Provider) : Bool := p = .aws

/-- Whether a month arrives as one export a day, of which some may be unusable. -/
def exportsDaily (p : Provider) : Bool := p = .gcp

end Provider

end CloudLedger
