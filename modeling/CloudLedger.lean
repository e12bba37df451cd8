import CloudLedger.CommandLine
import CloudLedger.Main
import CloudLedger.Proofs.Above
import CloudLedger.Proofs.Accounts
import CloudLedger.Proofs.Amount.Bits
import CloudLedger.Proofs.Amount.Overflow
import CloudLedger.Proofs.Amount.Quotients
import CloudLedger.Proofs.Amount.Rounding
import CloudLedger.Proofs.Amount.Shortest
import CloudLedger.Proofs.Archive
import CloudLedger.Proofs.ArchivePaths
import CloudLedger.Proofs.ArchivedTables
import CloudLedger.Proofs.Archiving
import CloudLedger.Proofs.CleanedRows
import CloudLedger.Proofs.Cleaning
import CloudLedger.Proofs.Collisions
import CloudLedger.Proofs.ColumnNames
import CloudLedger.Proofs.Csv
import CloudLedger.Proofs.DatesInCells
import CloudLedger.Proofs.Delta
import CloudLedger.Proofs.Dependence
import CloudLedger.Proofs.Discovery
import CloudLedger.Proofs.Disk
import CloudLedger.Proofs.ExactAmount
import CloudLedger.Proofs.FailingExports
import CloudLedger.Proofs.Finiteness
import CloudLedger.Proofs.FirstWrites
import CloudLedger.Proofs.Folders
import CloudLedger.Proofs.History
import CloudLedger.Proofs.Identity
import CloudLedger.Proofs.IdleRows
import CloudLedger.Proofs.KeepingTrees
import CloudLedger.Proofs.LineItems
import CloudLedger.Proofs.LookupRules
import CloudLedger.Proofs.MergingInParts
import CloudLedger.Proofs.Mirroring
import CloudLedger.Proofs.MonthToDate
import CloudLedger.Proofs.Numerals
import CloudLedger.Proofs.PathOrder
import CloudLedger.Proofs.Pipeline
import CloudLedger.Proofs.Questions
import CloudLedger.Proofs.Rearranging
import CloudLedger.Proofs.Reopening
import CloudLedger.Proofs.ReportTable
import CloudLedger.Proofs.Rerun
import CloudLedger.Proofs.SameEntries
import CloudLedger.Proofs.Schedules
import CloudLedger.Proofs.SeparateExports
import CloudLedger.Proofs.Sources
import CloudLedger.Proofs.StateFile.Absence
import CloudLedger.Proofs.StateFile.Atomicity
import CloudLedger.Proofs.StateFile.Contents
import CloudLedger.Proofs.StateFile.Decimals
import CloudLedger.Proofs.StateFile.Documents
import CloudLedger.Proofs.StateFile.Measures
import CloudLedger.Proofs.StateFile.Numbers
import CloudLedger.Proofs.StateFile.Replacing
import CloudLedger.Proofs.StateFile.Rereading
import CloudLedger.Proofs.StateFile.Strings
import CloudLedger.Proofs.StateFile.Survival
import CloudLedger.Proofs.Tasks
import CloudLedger.Proofs.Telescoping
import CloudLedger.Proofs.Timestamps
import CloudLedger.Proofs.Transcripts
import CloudLedger.Proofs.Trees
import CloudLedger.Proofs.Trimming
import CloudLedger.Proofs.Utf8
import CloudLedger.Proofs.WellFormed
import CloudLedger.Proofs.Yesterday
