import CloudLedger.Archive
import CloudLedger.Pipeline
import CloudLedger.Source

/-!
# Batches

A batch runs the pipelines of all providers that have a source, saves what they yield and archives
it.  All pipelines look recorded usage up in the store as it was before the batch; only then is
anything saved.  A provider that fails, in its pipeline or in saving, takes nothing from the others.
-/

namespace CloudLedger

open Files

/-- What a batch is to do. -/
structure Plan where
  configuration : Configuration
  sources : List Source := []
  /-- The folder of the archive, if there is to be one. -/
  archive : Option FilePath := none
  saves : Bool := true

/-- What came of one provider. -/
structure Outcome where
  provider : Provider
  result : Except Fault (List (Report Float))

instance : DecidableEq Outcome
  | ⟨first, .ok reports⟩, ⟨second, .ok others⟩ =>
    decidable_of_iff (first = second ∧ reports = others) (by simp)
  | ⟨first, .error cause⟩, ⟨second, .error other⟩ =>
    decidable_of_iff (first = second ∧ cause = other) (by simp)
  | ⟨_, .ok _⟩, ⟨_, .error _⟩ | ⟨_, .error _⟩, ⟨_, .ok _⟩ => .isFalse (by simp)

namespace Outcome

def succeeded (o : Outcome) : Bool := o.result.isOk

/-- The reports of a provider; none if it failed. -/
def reports (o : Outcome) : List (Report Float) := o.result.toOption.getD []

end Outcome

structure Summary where
  outcomes : List Outcome
  /-- What came of archiving, unless there was nothing to archive. -/
  archived : Option (Except Fault FilePath) := none

namespace Summary

def failed (s : Summary) : List Provider :=
  (s.outcomes.filter fun o ↦ !o.succeeded).map Outcome.provider

def reports (s : Summary) : List (Report Float) := s.outcomes.flatMap Outcome.reports

/-- The table that was written. -/
def archivePath? (s : Summary) : Option FilePath := s.archived.bind Except.toOption

/-- The fault that kept the table from being written. -/
def archiveFault? (s : Summary) : Option Fault :=
  match s.archived with
  | some (.error fault) => some fault
  | _ => none

def succeeded (s : Summary) : Bool :=
  s.outcomes.all Outcome.succeeded && s.archiveFault?.isNone

end Summary

/-- Put outcomes in the order of the providers, whatever order they came about in. -/
def settle (outcomes : List Outcome) : List Outcome :=
  Provider.all.flatMap fun p ↦ outcomes.filter fun o ↦ o.provider = p

namespace Plan

def sourcesOf (plan : Plan) (provider : Provider) : List Source :=
  plan.sources.filter fun s ↦ s.provider = provider

/-- The providers that have a source. -/
def providers (plan : Plan) : List Provider :=
  Provider.all.filter fun p ↦ plan.sources.any fun s ↦ s.provider = p

/-- The exports of a provider, source by source. -/
def exportsOf (plan : Plan) (disk : Disk) (provider : Provider) :
    Except Fault (List (List UInt8)) :=
  List.flatten <$> (plan.sourcesOf provider).mapM (Source.contents disk)

def outcome (plan : Plan) (lookup : Lookup Float) (disk : Disk) (provider : Provider) :
    Outcome where
  provider
  result := do
    let exports ← plan.exportsOf disk provider
    (Pipeline.run plan.configuration lookup provider exports).outcome

def outcomes (plan : Plan) (lookup : Lookup Float) (disk : Disk) : List Outcome :=
  settle (plan.providers.map (plan.outcome lookup disk))

variable {σ : Type} [Store σ]

/-- Save the reports of an outcome, if there are any; failing to save makes it a failure. -/
def storeOutcome (o : Outcome) : StateM (σ × Disk) Outcome := fun state ↦
  match o.reports with
  | [] => (o, state)
  | reports =>
    match (Store.save reports).run state with
    | .ok _ state => (o, state)
    | .error fault state => ({ o with result := .error fault }, state)

/-- Archive reports, if there are any and there is an archive. -/
def archiveReports (plan : Plan) (reports : List (Report Float)) :
    StateM (σ × Disk) (Option (Except Fault FilePath)) := fun state ↦
  match plan.archive, reports with
  | some folder, _ :: _ =>
    match (Archive.write folder plan.configuration.today reports).run state with
    | .ok path state => (some (.ok path), state)
    | .error fault state => (some (.error fault), state)
  | _, _ => (none, state)

def run (plan : Plan) : StateM (σ × Disk) Summary := do
  let (store, disk) ← get
  let outcomes := plan.outcomes (Store.lookup store) disk
  let outcomes ← if plan.saves then outcomes.mapM storeOutcome else pure outcomes
  let archived ← plan.archiveReports (outcomes.flatMap Outcome.reports)
  return { outcomes, archived }

end Plan

end CloudLedger
