import CloudLedger.Batch
import CloudLedger.StateFile

/-!
# Settings

The settings of a run, as given on the command line.  Every option takes one value, as the next word
or after an equals sign; switches take none.  Nothing may be given twice except daily exports.
-/

namespace CloudLedger

open Calendar Files

/-- How much a run tells about itself. -/
inductive LogLevel where
  | debug
  | info
  | warning
  | error
deriving DecidableEq

structure Settings where
  aws : Option FilePath := none
  awsRegion : String := ""
  awsBooking : BookingRule := .yesterday
  azure : Option FilePath := none
  gcp : List FilePath := []
  gcpFolder : Option FilePath := none
  timezone : String := "America/Los_Angeles"
  lookupRule : LookupRule := .ownDay
  stateFile : Option FilePath := none
  outputFolder : FilePath := ⟨"."⟩
  noExport : Bool := false
  noSave : Bool := false
  logLevel : LogLevel := .info
  debug : Bool := false

/-- What a command line asks for in place of a run, or what is wrong with it. -/
inductive UsageFault where
  | unknownArgument
  | invalidValue
  | argumentConflict
  | tooManyValues
  | helpWanted
  | versionWanted
deriving DecidableEq

/-- What can be given on the command line. -/
inductive Key where
  | aws
  | awsRegion
  | awsBooking
  | azure
  | gcp
  | gcpFolder
  | timezone
  | lookupRule
  | stateFile
  | outputFolder
  | noExport
  | noSave
  | logLevel
  | debug
  | help
  | version
deriving DecidableEq

namespace Key

def all : List Key :=
  [.aws, .awsRegion, .awsBooking, .azure, .gcp, .gcpFolder, .timezone, .lookupRule, .stateFile,
    .outputFolder, .noExport, .noSave, .logLevel, .debug, .help, .version]

def name : Key → String
  | .aws => "aws"
  | .awsRegion => "aws-region"
  | .awsBooking => "aws-export-day"
  | .azure => "azure"
  | .gcp => "gcp"
  | .gcpFolder => "gcp-dir"
  | .timezone => "timezone"
  | .lookupRule => "lookup-day"
  | .stateFile => "state-file"
  | .outputFolder => "output-dir"
  | .noExport => "no-export"
  | .noSave => "no-save"
  | .logLevel => "log-level"
  | .debug => "debug"
  | .help => "help"
  | .version => "version"

def ofName? (name : List Char) : Option Key := all.find? fun k ↦ k.name.toList = name

def ofLetter? : Char → Option Key
  | 'h' => some .help
  | 'V' => some .version
  | _ => none

def purpose : Key → String
  | .aws => "AWS month-to-date billing export (CSV)"
  | .awsRegion => "Availability zone recorded as the region of every AWS report"
  | .awsBooking => "Day the AWS cumulative export is attributed to: today or yesterday"
  | .azure => "Azure enrollment detail export (CSV)"
  | .gcp => "GCP daily billing export (CSV); may be repeated"
  | .gcpFolder => "Directory scanned recursively for GCP daily exports"
  | .timezone => "Reference timezone (IANA name) for today and period defaults"
  | .lookupRule => "Period used to key cumulative snapshot lookups: report or day-before"
  | .stateFile => "JSON file holding persisted reports"
  | .outputFolder => "Directory the normalized CSV export is written to"
  | .noExport => "Skip writing the normalized CSV export"
  | .noSave => "Skip saving reports to the state file"
  | .logLevel => "Logging level: DEBUG, INFO, WARNING or ERROR"
  | .debug => "Enable debug logging"
  | .help => "Print help"
  | .version => "Print version"

/-- Whether a key is a switch, which takes no value. -/
def isSwitch (k : Key) : Bool := k ∈ [.noExport, .noSave, .debug, .help, .version]

/-- Whether a key may be given more than once. -/
def repeats (k : Key) : Bool := k = .gcp

end Key

/-- The words for the days that an export can be booked to. -/
def bookingRules : List (String × BookingRule) := [("today", .today), ("yesterday", .yesterday)]

/-- The words for the days that usage can be looked up for. -/
def lookupRules : List (String × LookupRule) := [("report", .ownDay), ("day-before", .dayBefore)]

def logLevels : List (String × LogLevel) :=
  [("DEBUG", .debug), ("INFO", .info), ("WARNING", .warning), ("ERROR", .error)]

namespace Settings

/-- One of several words. -/
def chosen {α : Type} (choices : List (String × α)) (word : String) : Except UsageFault α :=
  match choices.lookup word with
  | some value => .ok value
  | none => .error .invalidValue

/-- A path, which must not be empty. -/
def pathOf (word : String) : Except UsageFault FilePath :=
  if word = "" then .error .invalidValue else .ok ⟨word⟩

/-- Set what a key stands for; switches have no use for the value. -/
def set (s : Settings) (key : Key) (value : String) : Except UsageFault Settings :=
  match key with
  | .aws => do return { s with aws := some (← pathOf value) }
  | .awsRegion => .ok { s with awsRegion := value }
  | .awsBooking => do return { s with awsBooking := ← chosen bookingRules value }
  | .azure => do return { s with azure := some (← pathOf value) }
  | .gcp => do return { s with gcp := s.gcp ++ [← pathOf value] }
  | .gcpFolder => do return { s with gcpFolder := some (← pathOf value) }
  | .timezone => .ok { s with timezone := value }
  | .lookupRule => do return { s with lookupRule := ← chosen lookupRules value }
  | .stateFile => do return { s with stateFile := some (← pathOf value) }
  | .outputFolder => do return { s with outputFolder := ← pathOf value }
  | .noExport => .ok { s with noExport := true }
  | .noSave => .ok { s with noSave := true }
  | .logLevel => do return { s with logLevel := ← chosen logLevels value }
  | .debug => .ok { s with debug := true }
  | .help => .error .helpWanted
  | .version => .error .versionWanted

end Settings

/-! ## Reading a command line -/

/-- The settings read so far. -/
structure Reading where
  settings : Settings := {}
  /-- The keys that have been given. -/
  given : List Key := []
  /-- The option whose value is due or has been read but not yet taken over. -/
  pending : Option (Key × Option String) := none

namespace Reading

/-- Take a key and its value over. -/
def accept (r : Reading) (key : Key) (value : String) : Except UsageFault Reading :=
  if key ∈ r.given ∧ !key.repeats then .error .argumentConflict
  else do return { r with settings := ← r.settings.set key value, given := key :: r.given }

/-- Take the pending option over, which needs its value. -/
def settle (r : Reading) : Except UsageFault Reading :=
  match r.pending with
  | none => .ok r
  | some (_, none) => .error .invalidValue
  | some (key, some value) => { r with pending := none }.accept key value

/-- Read a word of one dash. -/
def readShort (r : Reading) : List Char → Except UsageFault Reading
  | letter :: _ =>
    match Key.ofLetter? letter with
    | some key => do (← r.settle).accept key ""
    | none => .error .unknownArgument
  | [] => .error .unknownArgument

/-- Read a word of two dashes: a key's name and perhaps a value after an equals sign. -/
def readLong (r : Reading) (cs : List Char) : Except UsageFault Reading :=
  let name := cs.takeWhile (· ≠ '=')
  let attached : Option String :=
    match cs.dropWhile (· ≠ '=') with
    | _ :: value => some (String.ofList value)
    | [] => none
  match Key.ofName? name, attached with
  | none, _ => .error .unknownArgument
  | some key, some value =>
    if key.isSwitch then .error .tooManyValues else do (← r.settle).accept key value
  | some key, none => do
    let r ← r.settle
    if key.isSwitch then r.accept key "" else return { r with pending := some (key, none) }

/-- Read a word that is no key: it is the value that is due. -/
def readValue (r : Reading) (word : String) : Except UsageFault Reading :=
  match r.pending with
  | some (key, none) => .ok { r with pending := some (key, some word) }
  | _ => .error .unknownArgument

/-- Read the words of a command line.  Nothing may follow two dashes that stand alone. -/
def read (r : Reading) : List String → Except UsageFault Reading
  | [] => r.settle
  | word :: rest =>
    match word.toList with
    | ['-', '-'] => if rest = [] then r.settle else .error .unknownArgument
    | '-' :: '-' :: cs => do (← r.readLong cs).read rest
    | '-' :: c :: cs => do (← r.readShort (c :: cs)).read rest
    | _ => do (← r.readValue word).read rest

end Reading

namespace Settings

/-- Read the words of a command line.  The region may also be given by the environment, and
debugging goes before the log level. -/
def ofWords (region : Option String) (words : List String) : Except UsageFault Settings := do
  let r ← Reading.read {} words
  let s := r.settings
  let awsRegion := if .awsRegion ∈ r.given then s.awsRegion else region.getD s.awsRegion
  return { s with awsRegion, logLevel := if s.debug then .debug else s.logLevel }

/-! ## What settings mean -/

/-- Whether an export is given. -/
def namesExports (s : Settings) : Bool :=
  s.aws.isSome || s.azure.isSome || s.gcp ≠ [] || s.gcpFolder.isSome

/-- The path of the state file, which is in the home folder unless given. -/
def statePath (s : Settings) (home : FilePath) : FilePath :=
  s.stateFile.getD ((home.join ".billing-normalizer").join "reports.json")

/-- The configuration of the pipelines at a moment. -/
def configuration (s : Settings) (instant : Int) (zones : ZoneDatabase := Zone.builtIn) :
    Except Fault Configuration := do
  if !s.namesExports then throw (.configuration .noInputs)
  let zone ← readZone s.timezone zones
  match Reference.of? zone instant with
  | some reference =>
    return { reference, region := Text.trim s.awsRegion, booking := s.awsBooking,
             lookupRule := s.lookupRule }
  | none => throw .outsideCalendar

def sources (s : Settings) : List Source :=
  (s.aws.map fun path ↦ ⟨.aws, .files [path]⟩).toList
    ++ (s.azure.map fun path ↦ ⟨.azure, .files [path]⟩).toList
    ++ (if s.gcp = [] then [] else [⟨.gcp, .files s.gcp⟩])
    ++ (s.gcpFolder.map fun path ↦ ⟨.gcp, .folder path⟩).toList

/-- The paths that a run with the settings reads or writes, apart from what folders hold. -/
def paths (s : Settings) (home : FilePath) (period : Period) : List FilePath :=
  let state := s.statePath home
  let archive := Archive.path s.outputFolder period
  [state, StateFile.draftPath state, archive, Archive.draftPath archive]
    ++ s.aws.toList ++ s.azure.toList ++ s.gcp

/-- The batch that the settings ask for. -/
def plan (s : Settings) (configuration : Configuration) : Plan where
  configuration
  sources := s.sources
  archive := if s.noExport then none else some s.outputFolder
  saves := !s.noSave

end Settings

end CloudLedger
