import CloudLedger.Configuration
import CloudLedger.Usage.Account
import CloudLedger.Usage.Dialect

/-!
# Monthly running totals

The detailed billing export of AWS holds the running totals of the month so far.  Its rows carry no
day of their own, so that all are booked to one configured day and region.  Only the rows of payer
and linked accounts are line items; the others sum them up.
-/

namespace CloudLedger.Usage.Aws

open Table Text

inductive Column where
  | invoiceId
  | payerAccountId
  | linkedAccountId
  | recordType
  | recordId
  | billingPeriodStartDate
  | billingPeriodEndDate
  | invoiceDate
  | payerAccountName
  | linkedAccountName
  | taxationAddress
  | payerPoNumber
  | productCode
  | productName
  | sellerOfRecord
  | usageType
  | operation
  | rateId
  | itemDescription
  | usageStartDate
  | usageEndDate
  | usageQuantity
  | blendedRate
  | currencyCode
  | costBeforeTax
  | credits
  | taxAmount
  | taxType
  | totalCost
deriving DecidableEq

/-- All columns in the order of the export. -/
def Column.all : List Column :=
  [.invoiceId, .payerAccountId, .linkedAccountId, .recordType, .recordId, .billingPeriodStartDate,
    .billingPeriodEndDate, .invoiceDate, .payerAccountName, .linkedAccountName, .taxationAddress,
    .payerPoNumber, .productCode, .productName, .sellerOfRecord, .usageType, .operation, .rateId,
    .itemDescription, .usageStartDate, .usageEndDate, .usageQuantity, .blendedRate, .currencyCode,
    .costBeforeTax, .credits, .taxAmount, .taxType, .totalCost]

def Column.name : Column → String
  | .invoiceId => "InvoiceID"
  | .payerAccountId => "PayerAccountId"
  | .linkedAccountId => "LinkedAccountId"
  | .recordType => "RecordType"
  | .recordId => "RecordID"
  | .billingPeriodStartDate => "BillingPeriodStartDate"
  | .billingPeriodEndDate => "BillingPeriodEndDate"
  | .invoiceDate => "InvoiceDate"
  | .payerAccountName => "PayerAccountName"
  | .linkedAccountName => "LinkedAccountName"
  | .taxationAddress => "TaxationAddress"
  | .payerPoNumber => "PayerPONumber"
  | .productCode => "ProductCode"
  | .productName => "ProductName"
  | .sellerOfRecord => "SellerOfRecord"
  | .usageType => "UsageType"
  | .operation => "Operation"
  | .rateId => "RateId"
  | .itemDescription => "ItemDescription"
  | .usageStartDate => "UsageStartDate"
  | .usageEndDate => "UsageEndDate"
  | .usageQuantity => "UsageQuantity"
  | .blendedRate => "BlendedRate"
  | .currencyCode => "CurrencyCode"
  | .costBeforeTax => "CostBeforeTax"
  | .credits => "Credits"
  | .taxAmount => "TaxAmount"
  | .taxType => "TaxType"
  | .totalCost => "TotalCost"

instance : Columns Column where
  all := Column.all
  name := Column.name

/-- The record types of line items. -/
def itemTypes : List String := ["PayerLineItem", "LinkedLineItem"]

/-- Whether a record is a line item. -/
def isItem (record : Record Column) : Bool := trim (record .recordType) ∈ itemTypes

def account (record : Record Column) : Account :=
  .choose ⟨record .linkedAccountId, record .linkedAccountName⟩
    ⟨record .payerAccountId, record .payerAccountName⟩

variable {α : Type} [Amount α]

/-- The report of a line item. -/
def report? (region : String) (period : Period) (record : Record Column) : Option (Report α) :=
  if isItem record then
    let account := account record
    some (.derived ⟨.aws, account.number, trim (record .productName), region⟩ account.name period ""
      (.ofCells (record .usageQuantity) (record .totalCost)))
  else none

def dialect (c : Configuration) : Dialect α where
  provider := .aws
  Column := Column
  columns := inferInstance
  width := ⟨29, 29, by decide, by decide⟩
  report? := report? c.region c.bookingDay

end CloudLedger.Usage.Aws
