import CloudLedger.Merging
import CloudLedger.Delta
import CloudLedger.Usage.Aws
import CloudLedger.Usage.Azure
import CloudLedger.Usage.Gcp

/-!
# Pipelines

A pipeline turns all exports of one provider into its reports: it reads each export in the
provider's dialect, joins what they hold, merges it by identity and, for running totals, takes off
what has been recorded.  A provider that exports daily can do without the exports that fail, as long
as one succeeds.
-/

namespace CloudLedger.Pipeline

open Usage

variable {α : Type}

/-- Join exports of which each has to succeed. -/
def gatherAll (read : List UInt8 → Except Fault (List (Report α))) (exports : List (List UInt8)) :
    Except Fault (List (Report α)) :=
  List.flatten <$> exports.mapM read

/-- Join the exports that succeed; if none does, the fault of the last one counts. -/
def gatherDaily (read : List UInt8 → Except Fault (List (Report α)))
    (exports : List (List UInt8)) : Except Fault (List (Report α)) :=
  let outcomes := exports.map read
  match outcomes.filterMap Except.toOption, outcomes.getLast? with
  | [], some (.error fault) => .error fault
  | days, _ => .ok days.flatten

/-- Join exports as the provider delivers them. -/
def gather (d : Dialect α) (exports : List (List UInt8)) : Except Fault (List (Report α)) :=
  if exports = [] then .error (.noValidRows d.provider)
  else if d.provider.exportsDaily then gatherDaily d.ofExport exports
  else gatherAll d.ofExport exports

variable [Amount α]

def dialect (c : Configuration) : Provider → Dialect α
  | .aws => Aws.dialect c
  | .azure => Azure.dialect c
  | .gcp => Gcp.dialect c

/-- The merged reports of a provider's exports, before anything is taken off. -/
def totals (c : Configuration) (provider : Provider) (exports : List (List UInt8)) :
    Except Fault (List (Report α)) :=
  mergeByIdentity <$> gather (dialect c provider) exports

/-- The reports of a provider's exports, with the questions asked for them. -/
def run (c : Configuration) (lookup : Lookup α) (provider : Provider)
    (exports : List (List UInt8)) : Traced (List (Report α)) :=
  match totals c provider exports with
  | .error fault => .silent (.error fault)
  | .ok reports =>
    if provider.givesTotals then Delta.apply lookup c.lookupRule reports else .silent (.ok reports)

end CloudLedger.Pipeline
