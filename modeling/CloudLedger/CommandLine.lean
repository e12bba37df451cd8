import CloudLedger.Settings

/-!
# The command line

A run reads its settings, opens the state file, runs a batch and tells what came of it: a line for
each provider, the path of the archive, and in the end what failed.
-/

namespace CloudLedger

open Files Text

/-- What a run is given besides its words. -/
structure Environment where
  /-- The home folder. -/
  home : FilePath
  /-- The region named by the environment. -/
  region : Option String := none
  /-- The moment of the run in seconds since the epoch. -/
  instant : Int
  zones : Calendar.ZoneDatabase := Calendar.Zone.builtIn

/-- Why a run did not get to its batch. -/
inductive Refusal where
  | usage (fault : UsageFault)
  | fault (fault : Fault)
  /-- The state file cannot be opened. -/
  | stateFile (path : FilePath) (fault : Fault)

def makeStateFolder (path : FilePath) : EStateM Refusal Disk Unit := fun disk ↦
  match (StateFile.makeParent path).run disk with
  | .ok _ disk => .ok () disk
  | .error obstacle disk => .error (.fault (.stateFolder obstacle)) disk

/-- Run the batch that some words ask for. -/
def runWords (env : Environment) (words : List String) : EStateM Refusal Disk Summary := do
  let settings ← match Settings.ofWords env.region words with
    | .ok settings => pure settings
    | .error fault => throw (.usage fault)
  let configuration ← match settings.configuration env.instant env.zones with
    | .ok configuration => pure configuration
    | .error fault => throw (.fault fault)
  let path := settings.statePath env.home
  makeStateFolder path
  let disk ← get
  let file ← match StateFile.load path disk with
    | .ok file => pure file
    | .error fault => throw (.stateFile path fault)
  let (summary, _, disk) := (settings.plan configuration).run.run (file, disk)
  set disk
  return summary

/-- What a run prints and the code it ends with. -/
structure Exit where
  code : UInt8 := 0
  output : String := ""
  /-- What is printed about an error of the run. -/
  error : Option String := none
  /-- What is printed about words that cannot be read. -/
  advice : Option String := none

namespace Exit

def versionLine : String := "billing-normalizer 0.3.0\n"

/-- The line of a key in the help text. -/
def helpLine (key : Key) : String :=
  let left := "  --" ++ key.name ++ if key.isSwitch then "" else " <VALUE>"
  left ++ String.ofList (List.replicate (28 - left.length) ' ') ++ key.purpose ++ "\n"

def helpText : String :=
  "Normalize cloud billing exports into one canonical usage report\n\n"
    ++ "Usage: billing-normalizer [OPTIONS]\n\nOptions:\n" ++ String.join (Key.all.map helpLine)

/-- What is wrong with the words of a command line. -/
def adviceText (fault : UsageFault) : String :=
  let wrong := match fault with
    | .unknownArgument => "unexpected argument"
    | .invalidValue => "invalid or missing value"
    | .argumentConflict => "argument given twice"
    | .tooManyValues => "value for a switch"
    | _ => ""
  "error: " ++ wrong ++ "\n\nFor more information, try '--help'.\n"

/-- Put blanks in front of every line but the first. -/
def indented (blanks : Nat) (s : String) : String :=
  String.ofList (s.toList.flatMap fun c ↦
    if c = '\n' then '\n' :: List.replicate blanks ' ' else [c])

/-- What lies beneath an error, numbered if there is more than one. -/
def causesText : List String → String
  | [] => ""
  | [cause] => "\n\nCaused by:\n    " ++ indented 4 cause
  | causes =>
    "\n\nCaused by:" ++ String.join (causes.zipIdx.map fun (cause, i) ↦
      "\n    " ++ natNumeral i ++ ": " ++ indented 7 cause)

/-- The text of an error and what lies beneath it. -/
def errorText (message : String) (causes : List String) : String :=
  "Error: " ++ message ++ causesText causes ++ "\n"

def failure (output message : String) (causes : List String) : Exit :=
  { code := 1, output, error := some (errorText message causes) }

/-- The exit of a run that did not get to its batch. -/
def ofRefusal : Refusal → Exit
  | .usage .versionWanted => { output := versionLine }
  | .usage .helpWanted => { output := helpText }
  | .usage fault => { code := 2, advice := some (adviceText fault) }
  | .fault fault => failure "" fault.message fault.causes
  | .stateFile path fault =>
    failure "" ("opening state file " ++ path.text) (fault.message :: fault.causes)

def outcomeLine (o : Outcome) : String :=
  o.provider.tag ++ ": " ++ (match o.result with
    | .ok reports => natNumeral reports.length ++ " reports"
    | .error fault => "failed: " ++ fault.message) ++ "\n"

def archiveLine : Option FilePath → String
  | some path => "Export written to " ++ path.text ++ "\n"
  | none => ""

/-- The exit of a run after its batch. -/
def ofSummary (s : Summary) : Exit :=
  let output := String.join (s.outcomes.map outcomeLine) ++ archiveLine s.archivePath?
  match s.failed, s.archiveFault? with
  | [], none => { output }
  | [], some fault =>
    failure output "writing normalized export" (fault.message :: fault.causes)
  | failed, _ =>
    failure output (natNumeral failed.length ++ " provider(s) failed: "
      ++ ", ".intercalate (failed.map Provider.tag)) []

end Exit

/-- Run the program on some words. -/
def execute (env : Environment) (words : List String) (disk : Disk) : Exit × Disk :=
  match (runWords env words).run disk with
  | .ok summary disk => (.ofSummary summary, disk)
  | .error refusal disk => (.ofRefusal refusal, disk)

end CloudLedger
