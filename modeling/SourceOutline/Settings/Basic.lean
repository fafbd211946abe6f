import SourceOutline.Datum.Basic
import SourceOutline.Text.Blank

/-!
The settings of a run. They are built from layers, each a list of keys and values: a later layer wins
over an earlier one, and what is wrong in a layer leaves the other keys alone.
-/
namespace SourceOutline

structure Settings where
  sourceDir : String := "."
  resultRoot : String := "result"
  reportDir : String := "result/run_reports"
  perPackageIndex : Bool := true
  recordOmissions : Bool := false
  includeTests : Bool := false
  logLevel : String := "INFO"
deriving DecidableEq, Repr, Inhabited

namespace Settings

inductive Key where
  | sourceDir
  | resultRoot
  | reportDir
  | perPackageIndex
  | recordOmissions
  | includeTests
  | logLevel
deriving DecidableEq, Repr

namespace Key

/-- All keys, in the order they are shown. -/
def all : List Key :=
  [sourceDir, resultRoot, reportDir, perPackageIndex, recordOmissions, includeTests, logLevel]

def name : Key → String
  | sourceDir => "source_dir"
  | resultRoot => "result_root"
  | reportDir => "report_dir"
  | perPackageIndex => "per_package_index"
  | recordOmissions => "record_omissions"
  | includeTests => "include_tests"
  | logLevel => "log_level"

def ofName? (text : String) : Option Key :=
  all.find? (·.name == text)

def isFlag : Key → Bool
  | perPackageIndex => true
  | recordOmissions => true
  | includeTests => true
  | _ => false

end Key

inductive Value where
  | text (s : String)
  | flag (b : Bool)
deriving DecidableEq, Repr

inductive Complaint where
  | fileMissing (path : String)
  | fileMalformed (path reason : String)
  | notMapping (kind : String)
  | unknownKey (key origin : String)
  | notFlag (key shown : String)
  | notText (key kind : String)
deriving DecidableEq, Repr

def Complaint.message : Complaint → String
  | .fileMissing path => s!"Config file not found: {path}"
  | .fileMalformed path reason => s!"Failed to parse config YAML at {path}: {reason}"
  | .notMapping kind => s!"Unexpected config payload type: {kind}"
  | .unknownKey key origin => "Unknown config key '" ++ key ++ "' in " ++ origin
  | .notFlag key shown => "Config key '" ++ key ++ "' expects a boolean, got " ++ shown
  | .notText key kind => "Config key '" ++ key ++ "' expects a string, got " ++ kind

def yesWords : List String := ["1", "true", "yes", "on"]

def noWords : List String := ["0", "false", "no", "off"]

/-- A text without blanks around it, in small letters. -/
def plainWord (text : String) : String :=
  String.ofList (Text.lowerAscii (Text.trim text.toList))

def flagOf? (text : String) : Option Bool :=
  let word := plainWord text
  if yesWords.contains word then some true
  else if noWords.contains word then some false
  else none

/-- Settings with one of them changed; a value of the wrong kind changes nothing. -/
def set (s : Settings) : Key → Value → Settings
  | .sourceDir, .text v => { s with sourceDir := v }
  | .resultRoot, .text v => { s with resultRoot := v }
  | .reportDir, .text v => { s with reportDir := v }
  | .perPackageIndex, .flag v => { s with perPackageIndex := v }
  | .recordOmissions, .flag v => { s with recordOmissions := v }
  | .includeTests, .flag v => { s with includeTests := v }
  | .logLevel, .text v => { s with logLevel := v }
  | _, _ => s

structure Layer where
  origin : String
  entries : List (Datum × Datum)

structure Update where
  key : Key
  value : Value
deriving DecidableEq, Repr

def keyOf? : Datum → Option Key
  | .text s => Key.ofName? s
  | _ => none

def apply (s : Settings) (u : Update) : Settings :=
  s.set u.key u.value

def shown (s : Settings) : String :=
  let text := fun (key : Key) (v : String) => key.name ++ "=" ++ Text.quoted v
  let flag := fun (key : Key) (v : Bool) => key.name ++ "=" ++ Datum.boolText v
  "RunConfig(" ++ ", ".intercalate
    [text .sourceDir s.sourceDir, text .resultRoot s.resultRoot, text .reportDir s.reportDir,
      flag .perPackageIndex s.perPackageIndex, flag .recordOmissions s.recordOmissions,
      flag .includeTests s.includeTests, text .logLevel s.logLevel] ++ ")"

end Settings

end SourceOutline
