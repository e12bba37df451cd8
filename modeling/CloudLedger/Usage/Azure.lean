import CloudLedger.Configuration
import CloudLedger.Usage.Account
import CloudLedger.Usage.Dating
import CloudLedger.Usage.Dialect

/-!
# Dated usage details

The enrollment detail export of Azure has a day, a month and a year in every row.  A row without a
consumed service is no line item.
-/

namespace CloudLedger.Usage.Azure

open Table Text

inductive Column where
  | accountOwnerId
  | accountName
  | serviceAdministratorId
  | subscriptionId
  | subscriptionGuid
  | subscriptionName
  | date
  | month
  | day
  | year
  | product
  | meterId
  | meterCategory
  | meterSubCategory
  | meterRegion
  | meterName
  | consumedQuantity
  | resourceRate
  | extendedCost
  | resourceLocation
  | consumedService
  | instanceId
  | serviceInfo1
  | serviceInfo2
  | additionalInfo
  | tags
  | storeServiceIdentifier
  | departmentName
  | costCenter
  | unitOfMeasure
  | resourceGroup
deriving DecidableEq

/-- All columns in the order of the export. -/
def Column.all : List Column :=
  [.accountOwnerId, .accountName, .serviceAdministratorId, .subscriptionId, .subscriptionGuid,
    .subscriptionName, .date, .month, .day, .year, .product, .meterId, .meterCategory,
    .meterSubCategory, .meterRegion, .meterName, .consumedQuantity, .resourceRate, .extendedCost,
    .resourceLocation, .consumedService, .instanceId, .serviceInfo1, .serviceInfo2, .additionalInfo,
    .tags, .storeServiceIdentifier, .departmentName, .costCenter, .unitOfMeasure, .resourceGroup]

def Column.name : Column → String
  | .accountOwnerId => "AccountOwnerId"
  | .accountName => "Account Name"
  | .serviceAdministratorId => "ServiceAdministratorId"
  | .subscriptionId => "SubscriptionId"
  | .subscriptionGuid => "SubscriptionGuid"
  | .subscriptionName => "Subscription Name"
  | .date => "Date"
  | .month => "Month"
  | .day => "Day"
  | .year => "Year"
  | .product => "Product"
  | .meterId => "Meter ID"
  | .meterCategory => "Meter Category"
  | .meterSubCategory => "Meter Sub-Category"
  | .meterRegion => "Meter Region"
  | .meterName => "Meter Name"
  | .consumedQuantity => "Consumed Quantity"
  | .resourceRate => "ResourceRate"
  | .extendedCost => "ExtendedCost"
  | .resourceLocation => "Resource Location"
  | .consumedService => "Consumed Service"
  | .instanceId => "Instance ID"
  | .serviceInfo1 => "ServiceInfo1"
  | .serviceInfo2 => "ServiceInfo2"
  | .additionalInfo => "AdditionalInfo"
  | .tags => "Tags"
  | .storeServiceIdentifier => "Store Service Identifier"
  | .departmentName => "Department Name"
  | .costCenter => "Cost Center"
  | .unitOfMeasure => "Unit Of Measure"
  | .resourceGroup => "Resource Group"

instance : Columns Column where
  all := Column.all
  name := Column.name

def account (record : Record Column) : Account :=
  .choose ⟨record .subscriptionGuid, record .subscriptionName⟩
    ⟨record .accountOwnerId, record .accountName⟩

variable {α : Type} [Amount α]

/-- The report of a line item, given the day in place of a missing one. -/
def report? (today : Period) (record : Record Column) : Option (Report α) :=
  if isBlankText (record .consumedService) then none
  else
    let account := account record
    some (.derived
      ⟨.azure, account.number, trim (record .consumedService), trim (record .meterRegion)⟩
      account.name (periodOfCells today (record .day) (record .month) (record .year))
      (trim (record .unitOfMeasure)) (.ofCells (record .consumedQuantity) (record .extendedCost)))

def dialect (c : Configuration) : Dialect α where
  provider := .azure
  Column := Column
  columns := inferInstance
  width := ⟨31, 31, by decide, by decide⟩
  report? := report? c.today

end CloudLedger.Usage.Azure
