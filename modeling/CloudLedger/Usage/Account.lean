import CloudLedger.Text.Blank

/-!
# Accounts

A line item names the account that used something and the one above it that is billed.  The lower
one is taken if both its number and its name are given; number and name always come from the same
account.
-/

namespace CloudLedger.Usage

open Text

structure Account where
  number : String
  name : String
deriving DecidableEq

/-- The account below if it is fully given, else the one above, without the blanks around its number
and name. -/
def Account.choose (below above : Account) : Account :=
  let chosen := if isBlankText below.number || isBlankText below.name then above else below
  ⟨trim chosen.number, trim chosen.name⟩

end CloudLedger.Usage
