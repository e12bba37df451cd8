import CloudLedger.Files.Obstacle
import CloudLedger.Files.Path
import CloudLedger.Identity

/-!
# Faults

Everything that can go wrong between the exports and the archive, by its cause.  A fault concerns
one provider's share of a batch, or the batch as a whole; `Fault.message` words it, and
`Fault.causes` words what lies beneath it.
-/

namespace CloudLedger

open Text Files

/-- The step of cleaning after which no row was left. -/
inductive CleaningStep where
  /-- The export has no rows. -/
  | reading
  /-- All rows are blank. -/
  | droppingBlank
  /-- All rows that are not blank have too few cells. -/
  | droppingShort
deriving DecidableEq

/-- What is wrong with a configuration. -/
inductive ConfigurationFault where
  | zeroWidth
  | widthsReversed (least most : Nat)
  | unknownZone (name : String)
  | noInputs
deriving DecidableEq

/-- Why exports could not be fetched. -/
inductive FetchFault where
  | file (path : FilePath) (obstacle : Obstacle)
  | noFolder (path : FilePath)
  | noExports (path : FilePath)
deriving DecidableEq

/-- Why reports could not be saved. -/
inductive SaveFault where
  | nothingToSave
  | file (path : FilePath) (obstacle : Obstacle)
deriving DecidableEq

/-- What is wrong with the text of a state file. -/
inductive DocumentFault where
  /-- The text is not a document. -/
  | malformed
  /-- The text is a document, but not one that lists reports. -/
  | unexpected
  /-- The text ends too early. -/
  | unfinished
deriving DecidableEq

inductive Fault where
  | configuration (cause : ConfigurationFault)
  | exhausted (step : CleaningStep)
  | noValidRows (provider : Provider)
  | lookup (identity : Identity) (cause : Fault)
  | fetch (provider : Provider) (cause : FetchFault)
  | save (cause : SaveFault)
  | file (path : FilePath) (obstacle : Obstacle)
  | sheet (obstacle : Obstacle)
  /-- The folder of the state file could not be made. -/
  | stateFolder (obstacle : Obstacle)
  | document (cause : DocumentFault)
  /-- A source of rows broke off. -/
  | interrupted (text : String)
  /-- A lookup in somebody else's store failed. -/
  | foreign (text : String)
  /-- The day before the first day of the calendar was asked for. -/
  | outsideCalendar
deriving DecidableEq

def CleaningStep.text : CleaningStep → String
  | .reading => "reading rows"
  | .droppingBlank => "removing empty rows"
  | .droppingShort => "removing short rows"

def ConfigurationFault.message : ConfigurationFault → String
  | .zeroWidth => "maximum row width must be a positive integer"
  | .widthsReversed least most =>
    "minimum row width " ++ natNumeral least ++ " exceeds maximum row width " ++ natNumeral most
  | .unknownZone name => "unrecognised timezone \"" ++ name ++ "\""
  | .noInputs => "no provider exports configured; pass --aws, --azure, --gcp or --gcp-dir"

/-- The words for a file that an obstacle keeps from being used. -/
def fileMessage (path : FilePath) (obstacle : Obstacle) : String :=
  "Failed to access file " ++ path.text ++ ": " ++ obstacle.message

def FetchFault.message : FetchFault → String
  | .file path obstacle => fileMessage path obstacle
  | .noFolder path => "export directory " ++ path.text ++ " does not exist"
  | .noExports path => "no CSV exports found under " ++ path.text

def SaveFault.message : SaveFault → String
  | .nothingToSave => "no reports to save"
  | .file path obstacle => path.text ++ ": " ++ obstacle.message

namespace Fault

def message : Fault → String
  | .configuration cause => "Configuration error: " ++ cause.message
  | .exhausted step => "Report is empty: " ++ step.text ++ " returned no valid rows"
  | .noValidRows provider => "No valid " ++ provider.tag ++ " usage rows found"
  | .lookup identity cause =>
    "Failed to get usage to date for " ++ identity.digest ++ ": " ++ cause.message
  | .fetch provider cause => "Failed to fetch " ++ provider.tag ++ " usage: " ++ cause.message
  | .save cause => "Failed to save reports: " ++ cause.message
  | .file path obstacle => fileMessage path obstacle
  | .sheet obstacle => "CSV error: " ++ obstacle.message
  | .stateFolder obstacle => obstacle.message
  | .document _ => "Failed to parse JSON"
  | .interrupted text => text
  | .foreign text => text
  | .outsideCalendar => "date out of range"

/-- The words for what lies beneath a fault, from the outside in. -/
def causes : Fault → List String
  | .lookup _ cause => cause.message :: cause.causes
  | .fetch _ (.file path obstacle) => [fileMessage path obstacle, obstacle.message]
  | .fetch _ cause => [cause.message]
  | .file _ obstacle | .sheet obstacle => [obstacle.message]
  | _ => []

end Fault

end CloudLedger
